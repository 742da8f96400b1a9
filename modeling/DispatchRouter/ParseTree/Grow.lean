/-
# Making a node keeps the layout

Where the walk of `parse_node_add_pattern` finds no child for the next item of
the pattern it makes one: the node at the next address, with the next value of
the prefix counter, linked from its parent and, for a literal item, entered in
the hash table under its parent's prefix and its token (`QdParseTree.grow`).
The shape grows by the same node (`Shape.grow`). The layout stays as long as
the new path is pending and the new prefix is no live node's.
-/

import DispatchRouter.ParseTree.Layout

namespace DispatchRouter.ParseTree

open Math Hash

variable {ν : Type}

/-- The shape with the node of `path ++ [edge]` placed at `address` with the
prefix `hkeyPrefix`; a literal child's key enters the map. -/
def Shape.grow (shape : Shape) (path : Path) (edge : Glob (List UInt8)) (address : Nat)
    (hkeyPrefix : UInt32) : Shape where
  place := Function.update shape.place (path ++ [edge]) (some address)
  hkeyPrefix := Function.update shape.hkeyPrefix (path ++ [edge]) hkeyPrefix
  map :=
    match edge with
    | .lit token => (shape.map.insert (shape.key path token) address true).2
    | _ => shape.map

/-- The hash table after a child is made at `address` for `edge` below `node`,
and the child's handle: a literal child is entered under its key. -/
def enterChild (hash : HashTable Nat) (node : ParseNode ν) (edge : Glob (List UInt8)) (address : Nat) :
    Option Nat × HashTable Nat :=
  match edge with
  | .lit token =>
      let inserted := qdHashInsertStr hash (generateHkey node.hkeyPrefix token) address true
      (inserted.1.2, inserted.2)
  | _ => (none, hash)

/-- A parent with the child at `address` linked in for `edge`. -/
def linkChild (node : ParseNode ν) (edge : Glob (List UInt8)) (address : Nat) : ParseNode ν :=
  match edge with
  | .lit _ => { node with children := node.children ++ [address] }
  | .one => { node with match1Child := some address }
  | .many => { node with matchGlobChild := some address }

/-- The node made for `edge` below the node at `parent`. -/
def madeChild (edge : Glob (List UInt8)) (parent : Nat) (handle : Option Nat) (hkeyPrefix : UInt32) :
    ParseNode ν :=
  ⟨match edge with | .lit token => some token | _ => none, none, none, none, [], some parent, handle,
    none, hkeyPrefix, edgeType edge⟩

/-- The tree with a child made for `edge` below the node `node` at `address`:
the child at the next address, with the next prefix. -/
def QdParseTree.grow (tree : QdParseTree ν) (address : Nat) (node : ParseNode ν) (edge : Glob (List UInt8)) :
    QdParseTree ν :=
  let entered := enterChild tree.hash node edge tree.nextNode
  { tree with
    hash := entered.2
    nextHkeyPrefix := tree.nextHkeyPrefix + 1
    nextNode := tree.nextNode + 1
    nodes := Function.update (Function.update tree.nodes address (some (linkChild node edge tree.nextNode)))
      tree.nextNode (some (madeChild edge address entered.1 tree.nextHkeyPrefix)) }

namespace Shape

variable {shape : Shape} {path : Path} {edge : Glob (List UInt8)} {address : Nat} {hkeyPrefix : UInt32}

@[simp] theorem place_grow_self :
    (shape.grow path edge address hkeyPrefix).place (path ++ [edge]) = some address := by
  simp [grow]

theorem place_grow_of_ne {other : Path} (differ : other ≠ path ++ [edge]) :
    (shape.grow path edge address hkeyPrefix).place other = shape.place other :=
  Function.update_of_ne differ _ _

@[simp] theorem hkeyPrefix_grow_self :
    (shape.grow path edge address hkeyPrefix).hkeyPrefix (path ++ [edge]) = hkeyPrefix := by
  simp [grow]

theorem hkeyPrefix_grow_of_ne {other : Path} (differ : other ≠ path ++ [edge]) :
    (shape.grow path edge address hkeyPrefix).hkeyPrefix other = shape.hkeyPrefix other :=
  Function.update_of_ne differ _ _

/-- A live path is not the missing one. -/
theorem ne_of_alive {other : Path} (missing : shape.place (path ++ [edge]) = none)
    (alive : shape.place other ≠ none) : other ≠ path ++ [edge] := fun same => alive (by rw [same, missing])

theorem key_grow_of_ne {other : Path} (differ : other ≠ path ++ [edge]) (token : List UInt8) :
    (shape.grow path edge address hkeyPrefix).key other token = shape.key other token := by
  simp only [key, grow, Function.update_of_ne differ]

/-- A handle made before keeps its key. -/
theorem handleKey_grow {h : Nat} (made : h < shape.map.nextHandle) :
    (shape.grow path edge address hkeyPrefix).map.handleKey h = shape.map.handleKey h := by
  cases edge with
  | lit token =>
      simp only [grow, KeyMap.insert]
      split
      · rfl
      · simp [Function.update_of_ne (Nat.ne_of_lt made)]
  | one => rfl
  | many => rfl

theorem nextHandle_grow :
    shape.map.nextHandle ≤ (shape.grow path edge address hkeyPrefix).map.nextHandle := by
  cases edge with
  | lit token =>
      simp only [grow, KeyMap.insert]
      split
      · exact Nat.le_refl _
      · exact Nat.le_succ _
  | one => exact Nat.le_refl _
  | many => exact Nat.le_refl _

/-- A new literal child's key enters the map with the next handle. -/
theorem map_grow_lit {token : List UInt8}
    (absent : AssocList.lookup shape.map.entries (shape.key path token) = none) :
    (shape.grow path (.lit token) address hkeyPrefix).map =
      ⟨shape.map.entries ++ [(shape.key path token, address)],
        Function.update shape.map.handleKey shape.map.nextHandle (some (shape.key path token)),
        shape.map.nextHandle + 1⟩ := by
  simp [grow, KeyMap.insert_of_absent absent]

theorem map_grow_wildcard (wildcard : edge = .one ∨ edge = .many) :
    (shape.grow path edge address hkeyPrefix).map = shape.map := by
  rcases wildcard with rfl | rfl <;> rfl

end Shape

/-- A handle that fits stays fitting when the shape grows away from the node. -/
theorem HandleFits.grow {shape : Shape} {path : Path} {edge : Glob (List UInt8)} {address : Nat}
    {hkeyPrefix : UInt32} {other : Path} {node : ParseNode ν} (fits : HandleFits shape other node)
    (outside : ∀ more, other ≠ path ++ [edge] ++ more) :
    HandleFits (shape.grow path edge address hkeyPrefix) other node := by
  rcases List.eq_nil_or_concat' other with rfl | ⟨parent, item, rfl⟩
  · rwa [handleFits_root] at fits ⊢
  · -- the key of a literal node is made with its parent's prefix, which stays
    have parentOutside : parent ≠ path ++ [edge] := fun same => outside [item] (by rw [same])
    cases item with
    | lit token =>
        rw [handleFits_lit] at fits ⊢
        obtain ⟨h, handle, named, made⟩ := fits
        refine ⟨h, handle, ?_, Nat.lt_of_lt_of_le made Shape.nextHandle_grow⟩
        rw [Shape.handleKey_grow made, named, Shape.key_grow_of_ne parentOutside]
    | one => rwa [handleFits_wildcard _ _ (.inl rfl)] at fits ⊢
    | many => rwa [handleFits_wildcard _ _ (.inr rfl)] at fits ⊢

namespace Layout

variable {tree : QdParseTree ν} {entries : Stored ν} {shape : Shape} {pending : List Path}

/-- No node is live below a missing one. -/
theorem dead_below (layout : Layout tree entries shape pending) {path : Path}
    (missing : shape.place path = none) (more : Path) : shape.place (path ++ more) = none := by
  by_contra alive
  exact layout.closed alive missing

/-- A live path is not the missing one, nor below it. -/
theorem outside_of_alive (layout : Layout tree entries shape pending) {path other : Path}
    (missing : shape.place path = none) (alive : shape.place other ≠ none) (more : Path) :
    other ≠ path ++ more := by
  rintro rfl
  exact alive (layout.dead_below missing more)

/-- A path without a live node stores no pattern. -/
theorem lookup_eq_none_of_dead (layout : Layout tree entries shape pending) {path : Path}
    (dead : shape.place path = none) : AssocList.lookup entries path = none := by
  rw [AssocList.lookup_eq_none]
  intro stored
  exact layout.complete path stored path (List.prefix_refl path) dead

/-- The key of a missing literal child is free. -/
theorem key_absent (layout : Layout tree entries shape pending) {path : Path}
    (alive : shape.place path ≠ none) {token : List UInt8} (missing : shape.place (path ++ [.lit token]) = none)
    (noNul : 0 ∉ token) : AssocList.lookup shape.map.entries (shape.key path token) = none := by
  rw [layout.lookup_key alive noNul, missing]

/-- A literal child of a live node without that child goes into the hash table:
its key is free, so the insert succeeds with the next handle. -/
theorem insertChild (layout : Layout tree entries shape pending) {path : Path} {address : Nat}
    {node : ParseNode ν} (placed : shape.place path = some address) (nodes : tree.nodes address = some node)
    {token : List UInt8} (missing : shape.place (path ++ [.lit token]) = none) (noNul : 0 ∉ token)
    (child : Nat) (hkeyPrefix : UInt32) :
    (qdHashInsertStr tree.hash (generateHkey node.hkeyPrefix token) child true).1 =
        (.none, some shape.map.nextHandle) ∧
      Refines (qdHashInsertStr tree.hash (generateHkey node.hkeyPrefix token) child true).2
        (shape.grow path (.lit token) child hkeyPrefix).map := by
  have absent := layout.key_absent (by rw [placed]; simp) missing noNul
  obtain ⟨answer, refines⟩ := layout.refines.insertStr (generateHkey node.hkeyPrefix token) child true
  rw [(layout.fits placed nodes).hkeyPrefix] at answer refines ⊢
  refine ⟨?_, refines⟩
  rw [answer]
  exact congrArg Prod.fst (KeyMap.insert_of_absent absent child true)

section Grow

variable {path : Path} {address : Nat} {node : ParseNode ν} {edge : Glob (List UInt8)}

/-- The node of a live path other than the parent keeps fitting. -/
theorem fits_grow_other (layout : Layout tree entries shape pending)
    (missing : shape.place (path ++ [edge]) = none) {other : Path} {otherNode : ParseNode ν}
    (alive : shape.place other ≠ none) (notParent : other ≠ path)
    (fits : NodeFits entries shape other otherNode) :
    NodeFits entries (shape.grow path edge tree.nextNode tree.nextHkeyPrefix) other otherNode := by
  have outside := layout.outside_of_alive missing alive
  have childOutside : ∀ item, other ++ [item] ≠ path ++ [edge] := fun item same =>
    notParent (List.append_singleton_inj.mp same).1
  refine ⟨fits.matchType, ?parent, ?one, ?many, fits.children_nodup, ?children, fits.pattern, ?hkeyPrefix,
    fits.handle.grow outside, fits.token⟩
  case parent =>
    rw [fits.parent]
    split_ifs with root
    · rfl
    · -- the parent of a live path is not the new one, or the path would be below it
      refine (Shape.place_grow_of_ne fun same => outside [other.getLast root] ?_).symm
      rw [← same, List.dropLast_concat_getLast]
  case one => rw [fits.match1Child, Shape.place_grow_of_ne (childOutside _)]
  case many => rw [fits.matchGlobChild, Shape.place_grow_of_ne (childOutside _)]
  case children =>
    intro child
    rw [fits.mem_children]
    exact exists_congr fun token => by rw [Shape.place_grow_of_ne (childOutside _)]
  case hkeyPrefix =>
    rw [fits.hkeyPrefix, Shape.hkeyPrefix_grow_of_ne (by simpa using outside [])]

/-- The parent, with the new child linked in, fits. -/
theorem fits_grow_parent (layout : Layout tree entries shape pending)
    (placed : shape.place path = some address) (missing : shape.place (path ++ [edge]) = none)
    (fits : NodeFits entries shape path node) :
    NodeFits entries (shape.grow path edge tree.nextNode tree.nextHkeyPrefix) path
      (linkChild node edge tree.nextNode) := by
  have alive : shape.place path ≠ none := by rw [placed]; simp
  -- every field but the slot of `edge` is as in `fits_grow_other`
  have fresh : ∀ child ∈ node.children, child ≠ tree.nextNode := by
    intro child isChild same
    obtain ⟨token, childPlaced⟩ := (fits.mem_children child).mp isChild
    exact Nat.lt_irrefl _ (same ▸ layout.below _ _ childPlaced)
  have outside := layout.outside_of_alive missing alive
  have parentField : (linkChild node edge tree.nextNode).parent =
      if path = [] then none else (shape.grow path edge tree.nextNode tree.nextHkeyPrefix).place path.dropLast := by
    have same : (linkChild node edge tree.nextNode).parent = node.parent := by cases edge <;> rfl
    rw [same, fits.parent]
    split_ifs with root
    · rfl
    · refine (Shape.place_grow_of_ne fun same => outside [path.getLast root] ?_).symm
      rw [← same, List.dropLast_concat_getLast]
  have handleField : HandleFits (shape.grow path edge tree.nextNode tree.nextHkeyPrefix) path
      (linkChild node edge tree.nextNode) := by
    have same : (linkChild node edge tree.nextNode).handle = node.handle := by cases edge <;> rfl
    have fitsHandle : HandleFits (shape.grow path edge tree.nextNode tree.nextHkeyPrefix) path node :=
      fits.handle.grow outside
    unfold HandleFits at fitsHandle ⊢
    rwa [same]
  have hkeyPrefixField : (linkChild node edge tree.nextNode).hkeyPrefix =
      (shape.grow path edge tree.nextNode tree.nextHkeyPrefix).hkeyPrefix path := by
    have same : (linkChild node edge tree.nextNode).hkeyPrefix = node.hkeyPrefix := by cases edge <;> rfl
    rw [same, fits.hkeyPrefix, Shape.hkeyPrefix_grow_of_ne (by simp)]
  have tokenField : (linkChild node edge tree.nextNode).token = lastToken path := by
    have same : (linkChild node edge tree.nextNode).token = node.token := by cases edge <;> rfl
    rw [same, fits.token]
  cases edge with
  | lit token =>
      refine ⟨fits.matchType, parentField, ?_, ?_, ?_, ?_, fits.pattern, hkeyPrefixField, handleField, tokenField⟩
      · dsimp only [linkChild]
        rw [fits.match1Child, Shape.place_grow_of_ne (by simp)]
      · dsimp only [linkChild]
        rw [fits.matchGlobChild, Shape.place_grow_of_ne (by simp)]
      · exact List.nodup_append.mpr ⟨fits.children_nodup, List.nodup_singleton _,
          fun child isChild made isMade => by
            rw [List.mem_singleton] at isMade
            exact isMade ▸ fresh child isChild⟩
      · intro child
        simp only [linkChild, List.mem_append, List.mem_singleton, fits.mem_children]
        constructor
        · rintro (⟨other, childPlaced⟩ | rfl)
          · have differ : path ++ [.lit other] ≠ path ++ [.lit token] := fun same => by
              rw [same, missing] at childPlaced
              cases childPlaced
            exact ⟨other, by rwa [Shape.place_grow_of_ne differ]⟩
          · exact ⟨token, Shape.place_grow_self⟩
        · rintro ⟨other, childPlaced⟩
          by_cases made : other = token
          · subst made
            rw [Shape.place_grow_self, Option.some.injEq] at childPlaced
            exact .inr childPlaced.symm
          · rw [Shape.place_grow_of_ne (by simp [made])] at childPlaced
            exact .inl ⟨other, childPlaced⟩
  | one =>
      refine ⟨fits.matchType, parentField, by simp [linkChild], ?_, fits.children_nodup, ?_, fits.pattern,
        hkeyPrefixField, handleField, tokenField⟩
      · dsimp only [linkChild]
        rw [fits.matchGlobChild, Shape.place_grow_of_ne (by simp)]
      · intro child
        dsimp only [linkChild]
        rw [fits.mem_children]
        exact exists_congr fun token => by rw [Shape.place_grow_of_ne (by simp)]
  | many =>
      refine ⟨fits.matchType, parentField, ?_, by simp [linkChild], fits.children_nodup, ?_, fits.pattern,
        hkeyPrefixField, handleField, tokenField⟩
      · dsimp only [linkChild]
        rw [fits.match1Child, Shape.place_grow_of_ne (by simp)]
      · intro child
        dsimp only [linkChild]
        rw [fits.mem_children]
        exact exists_congr fun token => by rw [Shape.place_grow_of_ne (by simp)]

/-- The made node fits its path: it has no child yet, no pattern, the next
prefix and, for a literal item, the next handle. -/
theorem fits_grow_made (layout : Layout tree entries shape pending)
    (placed : shape.place path = some address) (nodes : tree.nodes address = some node)
    (missing : shape.place (path ++ [edge]) = none) (noNul : ∀ token, edge = .lit token → 0 ∉ token) :
    NodeFits entries (shape.grow path edge tree.nextNode tree.nextHkeyPrefix) (path ++ [edge])
      (madeChild edge address (enterChild tree.hash node edge tree.nextNode).1 tree.nextHkeyPrefix) := by
  have childless : ∀ item, (shape.grow path edge tree.nextNode tree.nextHkeyPrefix).place
      (path ++ [edge] ++ [item]) = none := fun item => by
    rw [Shape.place_grow_of_ne (by simp), layout.dead_below missing]
  refine ⟨by rw [nodeType_append]; rfl, ?parent, by rw [childless]; rfl, by rw [childless]; rfl, List.nodup_nil,
    ?children, ?pattern, by rw [Shape.hkeyPrefix_grow_self]; rfl, ?handle, by cases edge <;> simp [madeChild]⟩
  case parent =>
    rw [if_neg (by simp), List.dropLast_concat, Shape.place_grow_of_ne (by simp), placed]
    rfl
  case children =>
    intro child
    simp only [childless]
    simp [madeChild]
  case pattern =>
    rw [layout.lookup_eq_none_of_dead missing]
    rfl
  case handle =>
    cases edge with
    | lit token =>
        have alive : shape.place path ≠ none := by rw [placed]; simp
        have absent := layout.key_absent alive missing (noNul token rfl)
        obtain ⟨answer, _⟩ :=
          layout.insertChild placed nodes missing (noNul token rfl) tree.nextNode tree.nextHkeyPrefix
        rw [handleFits_lit, Shape.map_grow_lit absent, Shape.key_grow_of_ne (by simp)]
        refine ⟨shape.map.nextHandle, ?_, by simp, Nat.lt_succ_self _⟩
        show (qdHashInsertStr tree.hash (generateHkey node.hkeyPrefix token) tree.nextNode true).1.2 = _
        rw [answer]
    | one => exact (handleFits_wildcard _ _ (.inl rfl) _).mpr rfl
    | many => exact (handleFits_wildcard _ _ (.inr rfl) _).mpr rfl

/-- Only the new path leads to the new address. -/
theorem eq_of_place_grow_next (layout : Layout tree entries shape pending) {other : Path}
    (placedNext : (shape.grow path edge tree.nextNode tree.nextHkeyPrefix).place other = some tree.nextNode) :
    other = path ++ [edge] := by
  by_contra differ
  rw [Shape.place_grow_of_ne differ] at placedNext
  exact Nat.lt_irrefl _ (layout.below _ _ placedNext)

/-- An old literal child keeps its place and its key. -/
theorem place_key_grow_old (layout : Layout tree entries shape pending)
    (missing : shape.place (path ++ [edge]) = none) {child child' : Nat} {hkeyPrefix : UInt32} {other : Path}
    {token : List UInt8} (childPlaced : shape.place (other ++ [.lit token]) = some child) :
    (shape.grow path edge child' hkeyPrefix).place (other ++ [.lit token]) = some child ∧
      (shape.grow path edge child' hkeyPrefix).key other token = shape.key other token := by
  have alive : shape.place (other ++ [.lit token]) ≠ none := by rw [childPlaced]; simp
  have parentAlive := layout.closed alive
  refine ⟨?_, Shape.key_grow_of_ne (Shape.ne_of_alive missing parentAlive) token⟩
  rwa [Shape.place_grow_of_ne (Shape.ne_of_alive missing alive)]

/-- A wildcard child leaves the hash table's map as it is. -/
theorem keyed_grow_wildcard (layout : Layout tree entries shape pending)
    (missing : shape.place (path ++ [edge]) = none) (wildcard : edge = .one ∨ edge = .many)
    (key : List UInt8) (child : Nat) :
    AssocList.lookup (shape.grow path edge tree.nextNode tree.nextHkeyPrefix).map.entries key = some child ↔
      ∃ other token, (shape.grow path edge tree.nextNode tree.nextHkeyPrefix).place (other ++ [.lit token]) =
        some child ∧ key = (shape.grow path edge tree.nextNode tree.nextHkeyPrefix).key other token := by
  rw [Shape.map_grow_wildcard wildcard, layout.keyed]
  constructor
  · rintro ⟨other, token, childPlaced, sameKey⟩
    obtain ⟨placedNow, keyNow⟩ := layout.place_key_grow_old missing childPlaced
    exact ⟨other, token, placedNow, by rw [keyNow]; exact sameKey⟩
  · rintro ⟨other, token, childPlaced, sameKey⟩
    have notNew : other ++ [.lit token] ≠ path ++ [edge] := by
      rcases wildcard with rfl | rfl <;> simp
    rw [Shape.place_grow_of_ne notNew] at childPlaced
    exact ⟨other, token, childPlaced, by rw [sameKey, (layout.place_key_grow_old missing childPlaced).2]⟩

/-- The hash table as a map still has one key per literal child: the new
literal child's, if the item is one, joins the others, whose paths and
prefixes stay. -/
theorem keyed_grow (layout : Layout tree entries shape pending)
    (placed : shape.place path = some address) (missing : shape.place (path ++ [edge]) = none)
    (noNul : ∀ token, edge = .lit token → 0 ∉ token) (key : List UInt8) (child : Nat) :
    AssocList.lookup (shape.grow path edge tree.nextNode tree.nextHkeyPrefix).map.entries key = some child ↔
      ∃ other token, (shape.grow path edge tree.nextNode tree.nextHkeyPrefix).place (other ++ [.lit token]) =
        some child ∧ key = (shape.grow path edge tree.nextNode tree.nextHkeyPrefix).key other token := by
  cases edge with
  | lit made =>
      have absent := layout.key_absent (by rw [placed]; simp) missing (noNul made rfl)
      rw [Shape.map_grow_lit absent]
      dsimp only
      rw [AssocList.lookup_append_of_none absent]
      constructor
      · intro found
        split_ifs at found with isNew
        · rw [Option.some.injEq] at found
          subst found
          exact ⟨path, made, Shape.place_grow_self, by rw [isNew, Shape.key_grow_of_ne (by simp)]⟩
        · obtain ⟨other, token, childPlaced, sameKey⟩ := (layout.keyed key child).mp found
          obtain ⟨placedNow, keyNow⟩ := layout.place_key_grow_old missing childPlaced
          exact ⟨other, token, placedNow, by rw [keyNow]; exact sameKey⟩
      · rintro ⟨other, token, childPlaced, sameKey⟩
        by_cases isNew : other ++ [.lit token] = path ++ [.lit made]
        · obtain ⟨rfl, same⟩ := List.append_singleton_inj.mp isNew
          cases same
          rw [Shape.place_grow_self, Option.some.injEq] at childPlaced
          rw [if_pos (by rw [sameKey, Shape.key_grow_of_ne (by simp)]), childPlaced]
        · rw [Shape.place_grow_of_ne isNew] at childPlaced
          rw [(layout.place_key_grow_old missing childPlaced).2] at sameKey
          have found := (layout.keyed key child).mpr ⟨other, token, childPlaced, sameKey⟩
          have differ : key ≠ shape.key path made := fun same => by
            rw [same, absent] at found
            cases found
          rw [if_neg differ]
          exact found
  | one => exact layout.keyed_grow_wildcard missing (.inl rfl) key child
  | many => exact layout.keyed_grow_wildcard missing (.inr rfl) key child

/-- Making the child of a live node for an item of a pending path keeps the
layout, as long as the next prefix is no live node's. -/
theorem grow (layout : Layout tree entries shape pending)
    (placed : shape.place path = some address) (nodes : tree.nodes address = some node)
    (missing : shape.place (path ++ [edge]) = none) (justified : ∃ key ∈ pending, path ++ [edge] <+: key)
    (fresh : ∀ other, shape.place other ≠ none → shape.hkeyPrefix other ≠ tree.nextHkeyPrefix)
    (noNul : ∀ token, edge = .lit token → 0 ∉ token) :
    Layout (tree.grow address node edge) entries (shape.grow path edge tree.nextNode tree.nextHkeyPrefix)
      pending where
  root := by
    rw [Shape.place_grow_of_ne (by simp), layout.root]
    rfl
  nodeAt other child childPlaced := by
    by_cases made : other = path ++ [edge]
    · subst made
      rw [Shape.place_grow_self, Option.some.injEq] at childPlaced
      subst childPlaced
      exact ⟨_, by simp [QdParseTree.grow], layout.fits_grow_made placed nodes missing noNul⟩
    · rw [Shape.place_grow_of_ne made] at childPlaced
      have old : child ≠ tree.nextNode := Nat.ne_of_lt (layout.below _ _ childPlaced)
      by_cases parent : other = path
      · subst parent
        rw [placed, Option.some.injEq] at childPlaced
        subst childPlaced
        refine ⟨_, ?_, layout.fits_grow_parent placed missing (layout.fits placed nodes)⟩
        simp [QdParseTree.grow, Function.update_of_ne old]
      · obtain ⟨otherNode, otherNodes, fits⟩ := layout.nodeAt other child childPlaced
        have notAddress : child ≠ address := fun same =>
          parent (layout.injective _ _ _ childPlaced (same ▸ placed))
        refine ⟨otherNode, ?_, layout.fits_grow_other missing (by rw [childPlaced]; simp) parent fits⟩
        simp [QdParseTree.grow, Function.update_of_ne old, Function.update_of_ne notAddress, otherNodes]
  injective other other' child placedOther placedOther' := by
    by_cases isNew : child = tree.nextNode
    · subst isNew
      rw [layout.eq_of_place_grow_next placedOther, layout.eq_of_place_grow_next placedOther']
    · have old : ∀ p, (shape.grow path edge tree.nextNode tree.nextHkeyPrefix).place p = some child →
          shape.place p = some child := fun p pPlaced => by
        by_cases made : p = path ++ [edge]
        · rw [made, Shape.place_grow_self, Option.some.injEq] at pPlaced
          exact absurd pPlaced.symm isNew
        · rwa [Shape.place_grow_of_ne made] at pPlaced
      exact layout.injective _ _ _ (old _ placedOther) (old _ placedOther')
  allocated other made := by
    by_cases isNew : other = tree.nextNode
    · exact ⟨path ++ [edge], by rw [isNew, Shape.place_grow_self]⟩
    by_cases isParent : other = address
    · exact ⟨path, by rw [isParent, Shape.place_grow_of_ne (by simp), placed]⟩
    -- an old node keeps its path, which is not the new one
    obtain ⟨otherPath, otherPlaced⟩ := layout.allocated other
      (by simpa [QdParseTree.grow, Function.update_of_ne isNew, Function.update_of_ne isParent] using made)
    have differ : otherPath ≠ path ++ [edge] := fun same => by rw [same, missing] at otherPlaced; cases otherPlaced
    exact ⟨otherPath, by rw [Shape.place_grow_of_ne differ, otherPlaced]⟩
  justified other alive := by
    by_cases made : other = path ++ [edge]
    · obtain ⟨key, isPending, begins⟩ := justified
      exact .inr ⟨key, List.mem_append_right _ isPending, made ▸ begins⟩
    · rw [Shape.place_grow_of_ne made] at alive
      exact layout.justified other alive
  complete key isKey other begins := by
    have alive := layout.complete key isKey other begins
    rwa [Shape.place_grow_of_ne (Shape.ne_of_alive missing alive)]
  closed {other more} alive := by
    by_cases made : other ++ more = path ++ [edge]
    · -- a beginning of the new path is the new path or a beginning of its parent's
      rcases List.prefix_concat_iff.mp (made ▸ List.prefix_append other more) with same | before
      · rw [same, Shape.place_grow_self]
        simp
      · obtain ⟨rest, joined⟩ := before
        have parentAlive : shape.place (other ++ rest) ≠ none := by rw [joined, placed]; simp
        have otherAlive := layout.closed parentAlive
        rwa [Shape.place_grow_of_ne (Shape.ne_of_alive missing otherAlive)]
    · rw [Shape.place_grow_of_ne made] at alive
      have otherAlive := layout.closed alive
      rwa [Shape.place_grow_of_ne (Shape.ne_of_alive missing otherAlive)]
  below other child childPlaced := by
    show child < tree.nextNode + 1
    by_cases made : other = path ++ [edge]
    · rw [made, Shape.place_grow_self, Option.some.injEq] at childPlaced
      omega
    · rw [Shape.place_grow_of_ne made] at childPlaced
      exact Nat.lt_succ_of_lt (layout.below other child childPlaced)
  prefixes other other' alive alive' same := by
    -- the new prefix is no old node's
    by_cases made : other = path ++ [edge] <;> by_cases made' : other' = path ++ [edge]
    · rw [made, made']
    · rw [made, Shape.hkeyPrefix_grow_self, Shape.hkeyPrefix_grow_of_ne made'] at same
      rw [Shape.place_grow_of_ne made'] at alive'
      exact absurd same.symm (fresh other' alive')
    · rw [made', Shape.hkeyPrefix_grow_self, Shape.hkeyPrefix_grow_of_ne made] at same
      rw [Shape.place_grow_of_ne made] at alive
      exact absurd same (fresh other alive)
    · rw [Shape.hkeyPrefix_grow_of_ne made, Shape.hkeyPrefix_grow_of_ne made'] at same
      rw [Shape.place_grow_of_ne made] at alive
      rw [Shape.place_grow_of_ne made'] at alive'
      exact layout.prefixes other other' alive alive' same
  refines := by
    cases edge with
    | lit token =>
        exact (layout.insertChild placed nodes missing (noNul token rfl) tree.nextNode tree.nextHkeyPrefix).2
    | one => exact layout.refines
    | many => exact layout.refines
  keyed := layout.keyed_grow placed missing noNul
  noNul other token alive := by
    by_cases made : other ++ [.lit token] = path ++ [edge]
    · obtain ⟨rfl, rfl⟩ := List.append_singleton_inj.mp made
      exact noNul token rfl
    · rw [Shape.place_grow_of_ne made] at alive
      exact layout.noNul other token alive
  distinct := layout.distinct
  stored := layout.stored
  nonempty := layout.nonempty

end Grow

end Layout

end DispatchRouter.ParseTree
