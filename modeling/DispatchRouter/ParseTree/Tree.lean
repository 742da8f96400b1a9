/-
# The parse tree

`parse_tree.c`: the stored patterns as a tree with one node per token and
their common prefixes merged. A node has a child for each literal token that
follows it, kept in a list and found through the hash table under the key made
of the node's hash-key prefix and the token (`generate_hkey`), and at most one
match-one and one match-glob child. Every node takes the next value of the
32-bit counter `next_hkey_prefix` as its own prefix.

A node is known by its address: `nodes` holds the live ones and `nextNode` is
the address of the next one allocated. Reading a node that is not there would
crash the process, and makes a result `none`; so does running out of `fuel`,
which bounds the depth of the recursive walks. Allocation succeeds, and
`assert` is not compiled in. Logging is left out.
-/

import DispatchRouter.ParseTree.Pattern
import DispatchRouter.Math.Traversal

namespace DispatchRouter.ParseTree

open Math Hash
open Amqp (CString)

/-- `qd_parse_node_type_t`. -/
inductive ParseNodeType
  | root
  | token
  | matchOne
  | matchGlob
  deriving DecidableEq, Repr

/-- `qd_parse_node_t`. The payload is a pointer, which may be null. -/
structure ParseNode (ν : Type) where
  token : Option (List UInt8)
  pattern : Option (List UInt8)
  match1Child : Option Nat
  matchGlobChild : Option Nat
  children : List Nat
  parent : Option Nat
  handle : Option Nat
  payload : Option ν
  hkeyPrefix : UInt32
  matchType : ParseNodeType

/-- `qd_parse_tree_t`. The hash table maps keys to node addresses. -/
structure QdParseTree (ν : Type) where
  root : Nat
  hash : HashTable Nat
  type : ParseTreeType
  nextHkeyPrefix : UInt32
  nodes : Nat → Option (ParseNode ν)
  nextNode : Nat

variable {ν : Type}

/-- `parse_node_child_count`. -/
def ParseNode.childCount (node : ParseNode ν) : Nat :=
  node.children.length + (if node.match1Child.isSome then 1 else 0) +
    (if node.matchGlobChild.isSome then 1 else 0)

/-- The parent with its child of type `matchType` at `address` unlinked: the
switch of `qd_parse_tree_remove_pattern`. A root is no one's child. -/
def ParseNode.unlink (parentNode : ParseNode ν) (matchType : ParseNodeType) (address : Nat) : ParseNode ν :=
  match matchType with
  | .matchOne => { parentNode with match1Child := none }
  | .matchGlob => { parentNode with matchGlobChild := none }
  | .token => { parentNode with children := parentNode.children.erase address }
  | .root => parentNode

namespace QdParseTree

/-- Write a node at an address. -/
def setNode (tree : QdParseTree ν) (address : Nat) (node : ParseNode ν) : QdParseTree ν :=
  { tree with nodes := Function.update tree.nodes address (some node) }

/-- `new_parse_node`: a node with the next hash-key prefix. A token node is
also entered in the hash table under its parent's prefix and its token, with a
handle; if the key is taken the node is freed and there is none. The parent
of a wildcard node is set by the caller. -/
def newParseNode (tree : QdParseTree ν) (matchType : ParseNodeType) (token : List UInt8)
    (parent : Nat) : Option (QdParseTree ν × Option Nat) :=
  let address := tree.nextNode
  let node : ParseNode ν :=
    ⟨none, none, none, none, [], none, none, none, tree.nextHkeyPrefix, matchType⟩
  let allocated := { tree with nextHkeyPrefix := tree.nextHkeyPrefix + 1, nextNode := address + 1 }
  if matchType = .token then do
    let parentNode ← tree.nodes parent
    let inserted := qdHashInsertStr allocated.hash (generateHkey parentNode.hkeyPrefix token) address true
    if inserted.1.1 = .none then
      some ({ allocated with hash := inserted.2 }.setNode address
        { node with token := some token, handle := inserted.1.2, parent := some parent }, some address)
    else some ({ allocated with hash := inserted.2 }, none)
  else some (allocated.setNode address node, some address)

/-- `parse_node_find_child`: the child of a token, through the hash table. -/
def parseNodeFindChild (tree : QdParseTree ν) (node : ParseNode ν) (token : List UInt8) : Option Nat :=
  qdHashRetrieveStr tree.hash (generateHkey node.hkeyPrefix token)

/-- `free_parse_node`: the node's hash entry removed through its handle, the
handle freed, and the node gone. -/
def freeParseNode (tree : QdParseTree ν) (address : Nat) (node : ParseNode ν) : QdParseTree ν :=
  let hash :=
    match node.handle with
    | some _ => qdHashHandleFree (qdHashRemoveByHandle tree.hash node.handle).2 node.handle
    | none => tree.hash
  { tree with hash, nodes := Function.update tree.nodes address none }

/-! ### Adding a pattern -/

/-- A wildcard child for the loop of `parse_node_add_pattern`: the one there,
or a new node made the child and its parent set. -/
def wildcardChild (tree : QdParseTree ν) (address : Nat) (matchType : ParseNodeType)
    (child : ParseNode ν → Option Nat) (setChild : ParseNode ν → Nat → ParseNode ν) :
    Option (QdParseTree ν × Option Nat) := do
  let node ← tree.nodes address
  match child node with
  | some existing => some (tree, some existing)
  | none =>
      let (tree, made) ← tree.newParseNode matchType [] address
      match made with
      | none => some (tree, none)
      | some made =>
          let node ← tree.nodes address
          let tree := tree.setNode address (setChild node made)
          let madeNode ← tree.nodes made
          some (tree.setNode made { madeNode with parent := some address }, some made)

/-- One round of the loop of `parse_node_add_pattern` at the node `node` at
`address`: the child for the token, made if missing, or none when it could not
be made. A literal token's child is looked up in the hash table and, when
missing, made and put at the end of the children. -/
def addChild (tree : QdParseTree ν) (address : Nat) (node : ParseNode ν) (token : List UInt8) :
    Option (QdParseTree ν × Option Nat) :=
  if isMatch1 tree.type token then
    tree.wildcardChild address .matchOne (·.match1Child)
      fun node made => { node with match1Child := some made }
  else if isMatchGlob tree.type token then
    tree.wildcardChild address .matchGlob (·.matchGlobChild)
      fun node made => { node with matchGlobChild := some made }
  else
    match tree.parseNodeFindChild node token with
    | some child => some (tree, some child)
    | none => do
        let (tree, made) ← tree.newParseNode .token token address
        match made with
        | none => some (tree, none)
        | some made =>
            let node ← tree.nodes address
            some (tree.setNode address { node with children := node.children ++ [made] }, some made)

/-- The loop of `parse_node_add_pattern` from the node at `address`: the tree,
and the node the pattern ends at, or none when a node could not be made. -/
def addPatternLoop (tree : QdParseTree ν) (address : Nat) :
    List (List UInt8) → Option (QdParseTree ν × Option Nat)
  | [] => some (tree, some address)
  | token :: rest => do
      let node ← tree.nodes address
      let (tree, next) ← tree.addChild address node token
      match next with
      | none => some (tree, none)
      | some next => addPatternLoop tree next rest

/-- `parse_node_add_pattern`: the pattern is normalized and walked down from
the root, making the nodes it needs. It is stored at the node it ends at,
unless that is the root (it has no token) or holds a pattern already. -/
def parseNodeAddPattern (tree : QdParseTree ν) (pattern : List UInt8) (payload : Option ν) :
    Option (QdError × QdParseTree ν) := do
  let pattern := normalizePattern tree.type pattern
  let (tree, ending) ← tree.addPatternLoop tree.root (tokenIteratorInit tree.type pattern)
  match ending with
  | none => some (.alloc, tree)
  | some address =>
      if address = tree.root then some (.value, tree)
      else do
        let node ← tree.nodes address
        if node.pattern.isSome then some (.alreadyExists, tree)
        else some (.none, tree.setNode address { node with pattern := some pattern, payload })

/-! ### Finding and removing a pattern -/

/-- The loop of `parse_node_get_pattern`: the node a pattern's tokens lead to. -/
def getPatternLoop (tree : QdParseTree ν) : Option Nat → List (List UInt8) → Option (Option Nat)
  | none, _ => some none
  | some address, [] => some (some address)
  | some address, token :: rest => do
      let node ← tree.nodes address
      if isMatch1 tree.type token then getPatternLoop tree node.match1Child rest
      else if isMatchGlob tree.type token then getPatternLoop tree node.matchGlobChild rest
      else getPatternLoop tree (tree.parseNodeFindChild node token) rest

/-- `parse_node_get_pattern`: the node of the normalized pattern, if it holds
a pattern. -/
def parseNodeGetPattern (tree : QdParseTree ν) (pattern : List UInt8) : Option (Option Nat) := do
  let pattern := normalizePattern tree.type pattern
  let ending ← tree.getPatternLoop (some tree.root) (tokenIteratorInit tree.type pattern)
  match ending with
  | none => some none
  | some address => do
      let node ← tree.nodes address
      if node.pattern.isSome then some (some address) else some none

/-- The loop of `qd_parse_tree_remove_pattern`: while the node has a parent,
no pattern and no child, it is unlinked from its parent, freed, and the loop
goes on at the parent. -/
def pruneLoop : QdParseTree ν → Nat → Nat → Option Nat → Option (QdParseTree ν)
  | _, 0, _, _ => none
  | tree, fuel + 1, address, parent => do
      let node ← tree.nodes address
      match parent with
      | none => some tree
      | some parentAddress =>
          if node.pattern.isNone ∧ node.childCount = 0 then do
            let parentNode ← tree.nodes parentAddress
            let unlinked := parentNode.unlink node.matchType address
            let tree := (tree.setNode parentAddress unlinked).freeParseNode address node
            pruneLoop tree fuel parentAddress unlinked.parent
          else some tree

/-! ### Searching -/

section Search

variable {σ : Type} (tree : QdParseTree ν)

/-- `parse_node_find_children`, with `find` the search from a child: while a
token is left, the child of that token first and then the match-one child;
the match-glob child always, as `#` can match no token. -/
def parseNodeFindChildren (find : Nat → List (List UInt8) → σ → Option (Bool × σ))
    (node : ParseNode ν) (value : List (List UInt8)) (s : σ) : Option (Bool × σ) :=
  Traversal.andThen
    (match value with
      | [] => some (true, s)
      | token :: rest =>
          Traversal.andThen
            (if node.children.isEmpty then some (true, s)
              else
                match tree.parseNodeFindChild node token with
                | some child => find child rest s
                | none => some (true, s))
            fun s =>
              match node.match1Child with
              | some child => find child value s
              | none => some (true, s))
    fun s =>
      match node.matchGlobChild with
      | some child => find child value s
      | none => some (true, s)

variable (visit : σ → List UInt8 → Option ν → Bool × σ)

/-- The callback on a node's pattern, if it has one and no token is left. -/
def visitIfDone (node : ParseNode ν) (value : List (List UInt8)) (s : σ) : Option (Bool × σ) :=
  match value, node.pattern with
  | [], some pattern => some (visit s pattern node.payload)
  | _, _ => some (true, s)

/-- `parse_node_find_token`: a node that matched the last token gives its
pattern to the callback, and its children are searched. -/
def parseNodeFindToken (find : Nat → List (List UInt8) → σ → Option (Bool × σ))
    (node : ParseNode ν) (value : List (List UInt8)) (s : σ) : Option (Bool × σ) :=
  Traversal.andThen (visitIfDone visit node value s)
    fun s => tree.parseNodeFindChildren find node value s

/-- `parse_node_match_1`: the node takes one token. -/
def parseNodeMatch1 (find : Nat → List (List UInt8) → σ → Option (Bool × σ))
    (node : ParseNode ν) : List (List UInt8) → σ → Option (Bool × σ)
  | [], s => some (true, s)
  | _ :: rest, s =>
      Traversal.andThen (visitIfDone visit node rest s)
        fun s => tree.parseNodeFindChildren find node rest s

/-- The loop of `parse_node_match_glob`: the children are searched after the
`#` has taken each number of tokens but all of them. -/
def parseNodeMatchGlobLoop (find : Nat → List (List UInt8) → σ → Option (Bool × σ))
    (node : ParseNode ν) : List (List UInt8) → σ → Option (Bool × σ)
  | [], s => some (true, s)
  | token :: rest, s =>
      Traversal.andThen (tree.parseNodeFindChildren find node (token :: rest) s)
        fun s => parseNodeMatchGlobLoop find node rest s

/-- `parse_node_match_glob`: the loop, then the node's own pattern. -/
def parseNodeMatchGlob (find : Nat → List (List UInt8) → σ → Option (Bool × σ))
    (node : ParseNode ν) (value : List (List UInt8)) (s : σ) : Option (Bool × σ) :=
  Traversal.andThen (tree.parseNodeMatchGlobLoop find node value s)
    fun s => visitIfDone visit node [] s

/-- `parse_node_find`, by the type of the node. -/
def parseNodeFind : Nat → Nat → List (List UInt8) → σ → Option (Bool × σ)
  | 0, _, _, _ => none
  | fuel + 1, address, value, s => do
      let node ← tree.nodes address
      match node.matchType with
      | .matchOne => tree.parseNodeMatch1 visit (parseNodeFind fuel) node value s
      | .matchGlob => tree.parseNodeMatchGlob visit (parseNodeFind fuel) node value s
      | .token => tree.parseNodeFindToken visit (parseNodeFind fuel) node value s
      | .root => tree.parseNodeFindChildren (parseNodeFind fuel) node value s

/-- `parse_tree_walk`: the node's pattern, then its children in order, then
its match-one and match-glob children. -/
def parseTreeWalk : Nat → Nat → σ → Option (Bool × σ)
  | 0, _, _ => none
  | fuel + 1, address, s => do
      let node ← tree.nodes address
      Traversal.andThen (visitIfDone visit node [] s) fun s =>
        Traversal.andThen (Traversal.forEach (parseTreeWalk fuel) node.children s) fun s =>
          Traversal.andThen
            (match node.match1Child with
              | some child => parseTreeWalk fuel child s
              | none => some (true, s))
            fun s =>
              match node.matchGlobChild with
              | some child => parseTreeWalk fuel child s
              | none => some (true, s)

end Search

end QdParseTree

/-! ### The interface -/

/-- `qd_parse_tree_new`: the root, made by `new_parse_node` with the first
prefix, and a hash table of `2^10` buckets. -/
def qdParseTreeNew (type : ParseTreeType) : QdParseTree ν where
  root := 0
  hash := qdHash 10 (by decide)
  type := type
  nextHkeyPrefix := 2
  nodes := Function.update (fun _ => none) 0 (some ⟨none, none, none, none, [], none, none, none, 1, .root⟩)
  nextNode := 1

/-- `qd_parse_tree_add_pattern`: the pattern is the iterator's view, copied. -/
def qdParseTreeAddPattern (tree : QdParseTree ν) (view : List UInt8) (payload : Option ν) :
    Option (QdError × QdParseTree ν) :=
  tree.parseNodeAddPattern (qdIteratorCopy view).octets payload

/-- `qd_parse_tree_get_pattern`: whether the pattern is there, and its payload. -/
def qdParseTreeGetPattern (tree : QdParseTree ν) (view : List UInt8) : Option (Bool × Option ν) := do
  let found ← tree.parseNodeGetPattern (qdIteratorCopy view).octets
  match found with
  | none => some (false, none)
  | some address => do
      let node ← tree.nodes address
      some (true, node.payload)

/-- `qd_parse_tree_remove_pattern`: the pattern's payload, or null; its node is
cleared and pruned. -/
def qdParseTreeRemovePattern (tree : QdParseTree ν) (view : List UInt8) :
    Option (Option ν × QdParseTree ν) := do
  let found ← tree.parseNodeGetPattern (qdIteratorCopy view).octets
  match found with
  | none => some (none, tree)
  | some address => do
      let node ← tree.nodes address
      let cleared := tree.setNode address { node with pattern := none, payload := none }
      let pruned ← cleared.pruneLoop (cleared.nextNode + 1) address node.parent
      some (node.payload, pruned)

/-- `qd_parse_tree_search`: every pattern that matches the address is given to
the callback, until it says to stop; the callback's state at the end. -/
def qdParseTreeSearch {σ : Type} (tree : QdParseTree ν) (visit : σ → List UInt8 → Option ν → Bool × σ)
    (view : List UInt8) (s : σ) : Option σ :=
  (tree.parseNodeFind visit (tree.nextNode + 1) tree.root
    (tokenIteratorInit tree.type (qdIteratorCopy view).octets) s).map (·.2)

/-- `get_first`: keep the payload and stop. -/
def getFirst : Option ν → List UInt8 → Option ν → Bool × Option ν :=
  fun _ _ payload => (false, payload)

/-- `qd_parse_tree_retrieve_match`: the payload of the first pattern found, and
whether it is not null. -/
def qdParseTreeRetrieveMatch (tree : QdParseTree ν) (view : List UInt8) : Option (Bool × Option ν) :=
  (qdParseTreeSearch tree getFirst view none).map fun payload => (payload.isSome, payload)

/-- `qd_parse_tree_add_pattern_str`: the pattern is copied with `strdup`, which
stops where `qd_iterator_copy` does, at the first zero octet. -/
def qdParseTreeAddPatternStr (tree : QdParseTree ν) (pattern : List UInt8) (payload : Option ν) :
    Option (QdError × QdParseTree ν) :=
  tree.parseNodeAddPattern (qdIteratorCopy pattern).octets payload

/-- `qd_parse_tree_retrieve_match_str`: `qd_parse_tree_search_str` with
`get_first`, the value copied with `strdup`; whether the payload found is not
null. -/
def qdParseTreeRetrieveMatchStr (tree : QdParseTree ν) (value : List UInt8) : Option Bool :=
  (qdParseTreeSearch tree getFirst value none).map Option.isSome

/-- `qd_parse_tree_walk`. -/
def qdParseTreeWalk {σ : Type} (tree : QdParseTree ν) (visit : σ → List UInt8 → Option ν → Bool × σ)
    (s : σ) : Option (Bool × σ) :=
  tree.parseTreeWalk visit (tree.nextNode + 1) tree.root s

/-- `qd_parse_tree_validate_pattern`. -/
def qdParseTreeValidatePattern (tree : QdParseTree ν) (view : List UInt8) : Bool :=
  validatePattern tree.type (qdIteratorCopy view).octets

end DispatchRouter.ParseTree
