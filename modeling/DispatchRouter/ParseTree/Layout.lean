/-
# What a parse tree holds

The invariant of `parse_tree.c`'s tree. A pattern's normal form is the list of
items of the normalized pattern; the tree stores a map from normal forms to the
pattern as stored and its payload. Every path of items that begins a stored
normal form leads to one live node (`Shape.place`): its child slots lead on
along the next item, its parent pointer leads back, it holds the pattern stored
under its path, and no other live node has its hash-key prefix
(`Shape.hkeyPrefix`). The hash table, read as a map (`Shape.map`), has one key
per literal child, made of the parent's prefix and the child's token, and the
child's handle names that key.

`Layout` also allows live nodes on `pending` paths that no stored pattern
justifies yet: on the path a pattern being added is walking down, and at the
node a removal prunes from. Under it, looking a pattern up (`parse_node_get_pattern`) follows the
items of its normal form, and finds it exactly when it is stored.
-/

import DispatchRouter.ParseTree.Tree
import DispatchRouter.Hash.Spec

namespace DispatchRouter.ParseTree

open Math Hash

variable {ν : Type}

/-- A path down a tree: the items of the beginning of a normal form. -/
abbrev Path := List (Glob (List UInt8))

/-- What a tree stores: under each normal form, the pattern as stored and its
payload. -/
abbrev Stored (ν : Type) := List (Path × (List UInt8 × Option ν))

namespace Stored

/-- Adding a pattern under its normal form `key`: an empty normal form is
refused, a stored one keeps its value, and a new one is stored. -/
def add (entries : Stored ν) (key : Path) (value : List UInt8 × Option ν) : QdError × Stored ν :=
  if key = [] then (.value, entries)
  else if key ∈ AssocList.keys entries then (.alreadyExists, entries)
  else (.none, entries ++ [(key, value)])

/-- Removing the pattern of a normal form: its value, if one is stored. -/
def remove (entries : Stored ν) (key : Path) : Option (List UInt8 × Option ν) × Stored ν :=
  (AssocList.lookup entries key, AssocList.erase entries key)

end Stored

/-- The normal form of a pattern: the items of the normalized pattern. -/
def normalForm (type : ParseTreeType) (pattern : List UInt8) : Path :=
  patternGlobs type (normalizePattern type pattern)

/-- The type of the node an item leads to. -/
def edgeType : Glob (List UInt8) → ParseNodeType
  | .lit _ => .token
  | .one => .matchOne
  | .many => .matchGlob

/-- The type of the node a path leads to. -/
def nodeType (path : Path) : ParseNodeType :=
  match path.getLast? with
  | none => .root
  | some edge => edgeType edge

/-- Where a tree's nodes are: the address and the hash-key prefix of the node
each path leads to, and the hash table as a map. -/
structure Shape where
  place : Path → Option Nat
  hkeyPrefix : Path → UInt32
  map : KeyMap Nat

/-- The hash key of a literal child of the node of `path`. -/
def Shape.key (shape : Shape) (path : Path) (token : List UInt8) : List UInt8 :=
  (generateHkey (shape.hkeyPrefix path) token).octets

/-- A literal child has the handle that names its key; other nodes have none. -/
def HandleFits (shape : Shape) (path : Path) (node : ParseNode ν) : Prop :=
  match path.getLast? with
  | some (.lit token) =>
      ∃ h, node.handle = some h ∧ shape.map.handleKey h = some (shape.key path.dropLast token) ∧
        h < shape.map.nextHandle
  | _ => node.handle = none

/-- The token of a path's last item, if that is a literal. -/
def lastToken (path : Path) : Option (List UInt8) :=
  match path.getLast? with
  | some (.lit token) => some token
  | _ => none

@[simp] theorem lastToken_nil : lastToken [] = none := rfl

@[simp] theorem lastToken_append (path : Path) (edge : Glob (List UInt8)) :
    lastToken (path ++ [edge]) = match edge with
      | .lit token => some token
      | _ => none := by
  cases edge <;> simp [lastToken]

/-- The node of `path` is where the shape says. -/
structure NodeFits (entries : Stored ν) (shape : Shape) (path : Path) (node : ParseNode ν) : Prop where
  matchType : node.matchType = nodeType path
  parent : node.parent = if path = [] then none else shape.place path.dropLast
  match1Child : node.match1Child = shape.place (path ++ [.one])
  matchGlobChild : node.matchGlobChild = shape.place (path ++ [.many])
  children_nodup : node.children.Nodup
  mem_children : ∀ child, child ∈ node.children ↔ ∃ token, shape.place (path ++ [.lit token]) = some child
  pattern : node.pattern.map (fun pattern => (pattern, node.payload)) = AssocList.lookup entries path
  hkeyPrefix : node.hkeyPrefix = shape.hkeyPrefix path
  handle : HandleFits shape path node
  token : node.token = lastToken path

/-- The tree holds `entries`, its nodes laid out as `shape` says, with the
paths `pending` live as well. -/
structure Layout (tree : QdParseTree ν) (entries : Stored ν) (shape : Shape) (pending : List Path) :
    Prop where
  root : shape.place [] = some tree.root
  nodeAt : ∀ path address, shape.place path = some address →
    ∃ node, tree.nodes address = some node ∧ NodeFits entries shape path node
  injective : ∀ path other address, shape.place path = some address →
    shape.place other = some address → path = other
  allocated : ∀ address, tree.nodes address ≠ none → ∃ path, shape.place path = some address
  justified : ∀ path, shape.place path ≠ none →
    path = [] ∨ ∃ key ∈ AssocList.keys entries ++ pending, path <+: key
  complete : ∀ key ∈ AssocList.keys entries, ∀ path, path <+: key → shape.place path ≠ none
  closed : ∀ {path more : Path}, shape.place (path ++ more) ≠ none → shape.place path ≠ none
  below : ∀ path address, shape.place path = some address → address < tree.nextNode
  prefixes : ∀ path other, shape.place path ≠ none → shape.place other ≠ none →
    shape.hkeyPrefix path = shape.hkeyPrefix other → path = other
  refines : Refines tree.hash shape.map
  keyed : ∀ key child, AssocList.lookup shape.map.entries key = some child ↔
    ∃ path token, shape.place (path ++ [.lit token]) = some child ∧ key = shape.key path token
  noNul : ∀ path token, shape.place (path ++ [.lit token]) ≠ none → 0 ∉ token
  distinct : (AssocList.keys entries).Nodup
  stored : ∀ key value, AssocList.lookup entries key = some value → key = patternGlobs tree.type value.1
  nonempty : [] ∉ AssocList.keys entries

@[simp] theorem nodeType_nil : nodeType [] = .root := rfl

@[simp] theorem nodeType_append (path : Path) (edge : Glob (List UInt8)) :
    nodeType (path ++ [edge]) = edgeType edge := by
  simp [nodeType]

theorem handleFits_root (shape : Shape) (node : ParseNode ν) :
    HandleFits shape [] node ↔ node.handle = none := by
  simp [HandleFits]

theorem handleFits_lit (shape : Shape) (path : Path) (token : List UInt8) (node : ParseNode ν) :
    HandleFits shape (path ++ [.lit token]) node ↔
      ∃ h, node.handle = some h ∧ shape.map.handleKey h = some (shape.key path token) ∧
        h < shape.map.nextHandle := by
  simp [HandleFits]

theorem handleFits_wildcard (shape : Shape) (path : Path) {edge : Glob (List UInt8)}
    (wildcard : edge = .one ∨ edge = .many) (node : ParseNode ν) :
    HandleFits shape (path ++ [edge]) node ↔ node.handle = none := by
  rcases wildcard with rfl | rfl <;> simp [HandleFits]

/-- The shape of a new tree: the root alone, with the first prefix. -/
def Shape.initial : Shape :=
  ⟨fun path => if path = [] then some 0 else none, fun _ => 1, KeyMap.empty⟩

theorem layout_qdParseTreeNew (type : ParseTreeType) :
    Layout (qdParseTreeNew type : QdParseTree ν) [] Shape.initial [] where
  root := rfl
  nodeAt path address placed := by
    have root : path = [] := by
      by_contra notRoot
      simp [Shape.initial, notRoot] at placed
    subst root
    have zero : address = 0 := by simpa [Shape.initial, eq_comm] using placed
    subst zero
    refine ⟨_, rfl, ⟨rfl, rfl, by simp [Shape.initial], by simp [Shape.initial], List.nodup_nil,
      fun child => by simp [Shape.initial], rfl, rfl, by simp [HandleFits], rfl⟩⟩
  injective path other address placed placedOther := by
    by_cases root : path = []
    · by_cases otherRoot : other = []
      · rw [root, otherRoot]
      · simp [Shape.initial, otherRoot] at placedOther
    · simp [Shape.initial, root] at placed
  allocated address made := by
    have zero : address = 0 := by
      by_contra notZero
      simp [qdParseTreeNew, Function.update_of_ne notZero] at made
    exact ⟨[], by simp [Shape.initial, zero]⟩
  justified path alive := by
    by_contra notRoot
    simp_all [Shape.initial]
  complete key isKey := by simp [AssocList.keys] at isKey
  closed {path more} alive := by
    have root : path = [] := by
      by_contra notRoot
      simp [Shape.initial, notRoot] at alive
    simp [Shape.initial, root]
  below path address placed := by
    by_cases root : path = []
    · have zero : address = 0 := by simpa [Shape.initial, root, eq_comm] using placed
      subst zero
      exact Nat.zero_lt_one
    · simp [Shape.initial, root] at placed
  prefixes path other alive otherAlive _ := by
    by_cases root : path = []
    · by_cases otherRoot : other = []
      · rw [root, otherRoot]
      · simp [Shape.initial, otherRoot] at otherAlive
    · simp [Shape.initial, root] at alive
  refines := refines_empty 10 (by decide)
  keyed key child := by simp [Shape.initial, KeyMap.empty, AssocList.lookup]
  noNul path token alive := by simp [Shape.initial] at alive
  distinct := List.nodup_nil
  stored key value found := by simp [AssocList.lookup] at found
  nonempty := by simp [AssocList.keys]

namespace Layout

variable {tree : QdParseTree ν} {entries : Stored ν} {shape : Shape} {pending : List Path}

/-- The node at a live address fits its path. -/
theorem fits (layout : Layout tree entries shape pending) {path : Path} {address : Nat}
    {node : ParseNode ν} (placed : shape.place path = some address)
    (nodes : tree.nodes address = some node) : NodeFits entries shape path node := by
  obtain ⟨found, foundNodes, fits⟩ := layout.nodeAt path address placed
  rw [nodes, Option.some.injEq] at foundNodes
  rwa [foundNodes]

/-- Writing a live node leaves every made node live. -/
theorem allocated_setNode (layout : Layout tree entries shape pending) {path : Path} {address : Nat}
    (placed : shape.place path = some address) (node : ParseNode ν) (other : Nat)
    (made : (tree.setNode address node).nodes other ≠ none) : ∃ path, shape.place path = some other := by
  by_cases same : other = address
  · exact ⟨path, same ▸ placed⟩
  · exact layout.allocated other (by simpa [QdParseTree.setNode, Function.update_of_ne same] using made)

/-- The key of a literal child of a live node names that child, or nothing if
it has none: the key of another node would have another parent prefix or
token. -/
theorem lookup_key (layout : Layout tree entries shape pending) {path : Path}
    (alive : shape.place path ≠ none) {token : List UInt8} (noNul : 0 ∉ token) :
    AssocList.lookup shape.map.entries (shape.key path token) = shape.place (path ++ [.lit token]) := by
  cases child : shape.place (path ++ [.lit token]) with
  | some address => exact (layout.keyed _ _).mpr ⟨path, token, child, rfl⟩
  | none =>
      cases found : AssocList.lookup shape.map.entries (shape.key path token) with
      | none => rfl
      | some other =>
          obtain ⟨otherPath, otherToken, otherPlaced, sameKey⟩ := (layout.keyed _ _).mp found
          have otherAlive : shape.place (otherPath ++ [.lit otherToken]) ≠ none := by
            rw [otherPlaced]
            simp
          obtain ⟨samePrefix, sameToken⟩ :=
            generateHkey_inj noNul (layout.noNul _ _ otherAlive) sameKey
          have samePath := layout.prefixes _ _ alive (layout.closed otherAlive) samePrefix
          rw [samePath, sameToken, otherPlaced] at child
          cases child

/-- `parse_node_find_child` finds the literal child through the hash table. -/
theorem findChild (layout : Layout tree entries shape pending) {path : Path} {address : Nat}
    {node : ParseNode ν} (placed : shape.place path = some address)
    (nodes : tree.nodes address = some node) {token : List UInt8} (noNul : 0 ∉ token) :
    tree.parseNodeFindChild node token = shape.place (path ++ [.lit token]) := by
  rw [QdParseTree.parseNodeFindChild, qdHashRetrieveStr_eq, layout.refines.values,
    (layout.fits placed nodes).hkeyPrefix]
  exact layout.lookup_key (by rw [placed]; simp) noNul

/-- The loop of `parse_node_get_pattern` follows the items of the tokens. -/
theorem getPatternLoop_eq (layout : Layout tree entries shape pending) (tokens : List (List UInt8))
    (noNul : ∀ token ∈ tokens, 0 ∉ token) (path : Path) :
    tree.getPatternLoop (shape.place path) tokens =
      some (shape.place (path ++ tokens.map (globOf tree.type))) := by
  induction tokens generalizing path with
  | nil => cases placed : shape.place path <;> simp [QdParseTree.getPatternLoop, placed]
  | cons token rest ih =>
      have restNoNul : ∀ other ∈ rest, 0 ∉ other := fun other inRest =>
        noNul other (List.mem_cons_of_mem token inRest)
      cases placed : shape.place path with
      | none =>
          -- past a missing node no node is live
          have dead : shape.place (path ++ (token :: rest).map (globOf tree.type)) = none := by
            by_contra alive
            exact layout.closed alive placed
          rw [dead]
          rfl
      | some address =>
          obtain ⟨node, nodes, fits⟩ := layout.nodeAt path address placed
          have step : ∀ edge, globOf tree.type token = edge →
              tree.getPatternLoop (shape.place (path ++ [edge])) rest =
                some (shape.place (path ++ (token :: rest).map (globOf tree.type))) := by
            intro edge isEdge
            rw [ih restNoNul (path ++ [edge]), List.map_cons, isEdge, List.append_assoc,
              List.singleton_append]
          simp only [QdParseTree.getPatternLoop, nodes, Option.bind_eq_bind, Option.bind_some]
          split_ifs with isOne isGlob
          · rw [fits.match1Child]
            exact step .one (by simp [globOf, isOne])
          · rw [fits.matchGlobChild]
            exact step .many (by simp [globOf, isOne, isGlob])
          · rw [layout.findChild placed nodes (noNul token List.mem_cons_self)]
            exact step (.lit token) (by simp [globOf, isOne, isGlob])

/-- The tokens of a normalized C string hold no zero octet. -/
theorem zero_not_mem_normal_token {type : ParseTreeType} {pattern : List UInt8} (noNul : 0 ∉ pattern) :
    ∀ token ∈ tokenIteratorInit type (normalizePattern type pattern), 0 ∉ token :=
  fun _ inTokens => zero_not_mem_token (zero_not_mem_normalizePattern noNul) inTokens

/-- `parse_node_get_pattern` finds the node of a pattern exactly when the
pattern's normal form is stored. -/
theorem parseNodeGetPattern_eq (layout : Layout tree entries shape pending) {pattern : List UInt8}
    (noNul : 0 ∉ pattern) :
    tree.parseNodeGetPattern pattern =
      some ((AssocList.lookup entries (normalForm tree.type pattern)).bind
        fun _ => shape.place (normalForm tree.type pattern)) := by
  have walked : tree.getPatternLoop (some tree.root)
      (tokenIteratorInit tree.type (normalizePattern tree.type pattern)) =
        some (shape.place (normalForm tree.type pattern)) := by
    have tokensNoNul : ∀ token ∈ tokenIteratorInit tree.type (normalizePattern tree.type pattern),
        0 ∉ token := zero_not_mem_normal_token noNul
    have loop := layout.getPatternLoop_eq _ tokensNoNul []
    rwa [layout.root, List.nil_append] at loop
  unfold QdParseTree.parseNodeGetPattern
  simp only [walked, Option.bind_eq_bind, Option.bind_some]
  cases placed : shape.place (normalForm tree.type pattern) with
  | none =>
      cases AssocList.lookup entries (normalForm tree.type pattern) <;> simp
  | some address =>
      obtain ⟨node, nodes, fits⟩ := layout.nodeAt _ address placed
      have stored := fits.pattern
      simp only [nodes, Option.bind_some]
      cases found : AssocList.lookup entries (normalForm tree.type pattern) with
      | none =>
          rw [found, Option.map_eq_none_iff] at stored
          simp [stored]
      | some value =>
          rw [found] at stored
          obtain ⟨pattern, isSome, _⟩ := Option.map_eq_some_iff.mp stored
          simp [isSome]

/-- `qd_parse_tree_get_pattern` finds the payload stored under the normal form
of the copied pattern. -/
theorem qdParseTreeGetPattern_spec (layout : Layout tree entries shape pending) (view : List UInt8) :
    qdParseTreeGetPattern tree view =
      some ((AssocList.lookup entries (normalForm tree.type (qdIteratorCopy view).octets)).isSome,
        (AssocList.lookup entries (normalForm tree.type (qdIteratorCopy view).octets)).bind (·.2)) := by
  unfold qdParseTreeGetPattern
  rw [layout.parseNodeGetPattern_eq (qdIteratorCopy view).no_nul]
  simp only [Option.bind_eq_bind, Option.bind_some]
  cases stored : AssocList.lookup entries (normalForm tree.type (qdIteratorCopy view).octets) with
  | none => rfl
  | some value =>
      have isKey : normalForm tree.type (qdIteratorCopy view).octets ∈ AssocList.keys entries :=
        by_contra fun absent => by rw [AssocList.lookup_eq_none.mpr absent] at stored; cases stored
      obtain ⟨address, placed⟩ := Option.ne_none_iff_exists'.mp (layout.complete _ isKey _ (List.prefix_refl _))
      obtain ⟨node, nodes, fits⟩ := layout.nodeAt _ address placed
      have holds := fits.pattern
      rw [stored] at holds
      obtain ⟨pattern, _, same⟩ := Option.map_eq_some_iff.mp holds
      simp only [Option.bind_some, placed, nodes, ← same]
      rfl

end Layout

end DispatchRouter.ParseTree
