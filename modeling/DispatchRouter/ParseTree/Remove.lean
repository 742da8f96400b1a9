/-
# Removing a pattern

`qd_parse_tree_remove_pattern` under the layout. The node of the pattern's
normal form is cleared; then, while the node holds no pattern, has no child
and has a parent, it is unlinked from its parent and freed, with its hash
entry and handle (`free_parse_node`), and the loop goes on at the parent. The
shape loses the node the same way (`Shape.prune`), and the path the loop is at
is pending until the loop stops at a node a stored pattern still needs. The
tree then stores what `Stored.remove` says.
-/

import DispatchRouter.ParseTree.Add
import Mathlib.Data.Fin.Pigeonhole

namespace DispatchRouter.ParseTree

open Math Hash

variable {ν : Type}

/-- The shape without the node of `path ++ [edge]`; a literal node's key
leaves the map. -/
def Shape.prune (shape : Shape) (path : Path) (edge : Glob (List UInt8)) : Shape where
  place := Function.update shape.place (path ++ [edge]) none
  hkeyPrefix := shape.hkeyPrefix
  map :=
    match edge with
    | .lit token => (shape.map.remove (shape.key path token)).2
    | _ => shape.map

/-- A freed handle that names no key changes nothing. -/
theorem KeyMap.handleFree_of_unnamed {α : Type} {map : KeyMap α} {h : Nat} (unnamed : map.handleKey h = none) :
    map.handleFree (some h) = map := by
  simp only [KeyMap.handleFree]
  rw [← unnamed, Function.update_eq_self]

namespace Shape

variable {shape : Shape} {path : Path} {edge : Glob (List UInt8)}

@[simp] theorem place_prune_self : (shape.prune path edge).place (path ++ [edge]) = none := by
  simp [prune]

theorem place_prune_of_ne {other : Path} (differ : other ≠ path ++ [edge]) :
    (shape.prune path edge).place other = shape.place other :=
  Function.update_of_ne differ _ _

/-- A node of the pruned shape was there before, at the same place. -/
theorem place_of_place_prune {other : Path} {child : Nat}
    (childPlaced : (shape.prune path edge).place other = some child) :
    shape.place other = some child ∧ other ≠ path ++ [edge] := by
  have differ : other ≠ path ++ [edge] := fun same => by
    rw [same, place_prune_self] at childPlaced
    cases childPlaced
  rw [place_prune_of_ne differ] at childPlaced
  exact ⟨childPlaced, differ⟩

theorem alive_of_alive_prune {other : Path} (alive : (shape.prune path edge).place other ≠ none) :
    shape.place other ≠ none ∧ other ≠ path ++ [edge] := by
  obtain ⟨child, childPlaced⟩ := Option.ne_none_iff_exists'.mp alive
  obtain ⟨placedBefore, differ⟩ := place_of_place_prune childPlaced
  exact ⟨by rw [placedBefore]; simp, differ⟩

@[simp] theorem hkeyPrefix_prune : (shape.prune path edge).hkeyPrefix = shape.hkeyPrefix := rfl

@[simp] theorem key_prune : (shape.prune path edge).key = shape.key := rfl

@[simp] theorem nextHandle_prune : (shape.prune path edge).map.nextHandle = shape.map.nextHandle := by
  cases edge with
  | lit token =>
      simp only [prune, KeyMap.remove]
      split <;> rfl
  | one => rfl
  | many => rfl

/-- A handle keeps its key unless it named the key of the node pruned. -/
theorem handleKey_prune {h : Nat} {key : List UInt8} (named : shape.map.handleKey h = some key)
    (other : ∀ token, edge = .lit token → key ≠ shape.key path token) :
    (shape.prune path edge).map.handleKey h = some key := by
  cases edge with
  | lit token =>
      simp only [prune, KeyMap.remove]
      split
      · exact named
      · simp [named, other token rfl]
  | one => exact named
  | many => exact named

end Shape

/-- A node has no child exactly when no path goes on below its own. -/
theorem NodeFits.childCount_eq_zero {entries : Stored ν} {shape : Shape} {path : Path} {node : ParseNode ν}
    (fits : NodeFits entries shape path node) :
    node.childCount = 0 ↔ ∀ item, shape.place (path ++ [item]) = none := by
  have noChildren : node.children = [] ↔ ∀ token, shape.place (path ++ [.lit token]) = none := by
    rw [List.eq_nil_iff_forall_not_mem]
    constructor
    · intro none token
      cases childPlaced : shape.place (path ++ [.lit token]) with
      | none => rfl
      | some child => exact absurd ((fits.mem_children child).mpr ⟨token, childPlaced⟩) (none child)
    · intro none child isChild
      obtain ⟨token, childPlaced⟩ := (fits.mem_children child).mp isChild
      rw [none token] at childPlaced
      cases childPlaced
  unfold ParseNode.childCount
  rw [fits.match1Child, fits.matchGlobChild]
  constructor
  · intro zero item
    have empty : node.children = [] := List.eq_nil_of_length_eq_zero (by omega)
    cases item with
    | lit token => exact noChildren.mp empty token
    | one => exact Option.not_isSome_iff_eq_none.mp fun isSome => by simp [isSome] at zero
    | many => exact Option.not_isSome_iff_eq_none.mp fun isSome => by simp [isSome] at zero
  · intro none
    rw [noChildren.mpr fun token => none (.lit token), none .one, none .many]
    rfl

/-- What pruning changed: nodes are gone, and the others stay where they were,
with their prefixes. -/
structure Pruned (tree tree' : QdParseTree ν) (shape shape' : Shape) : Prop where
  root : tree'.root = tree.root
  type : tree'.type = tree.type
  counter : tree'.nextHkeyPrefix = tree.nextHkeyPrefix
  kept : ∀ path, shape'.place path ≠ none →
    shape'.place path = shape.place path ∧ shape'.hkeyPrefix path = shape.hkeyPrefix path

theorem Pruned.rfl {tree : QdParseTree ν} {shape : Shape} : Pruned tree tree shape shape where
  root := Eq.refl _
  type := Eq.refl _
  counter := Eq.refl _
  kept _ _ := ⟨Eq.refl _, Eq.refl _⟩

/-- A node pruned, and then more. -/
theorem Pruned.prune {tree tree' : QdParseTree ν} {shape shape' : Shape} {path : Path} {edge : Glob (List UInt8)}
    {parentAddress address : Nat} {unlinked node : ParseNode ν}
    (pruned : Pruned ((tree.setNode parentAddress unlinked).freeParseNode address node) tree'
      (shape.prune path edge) shape') :
    Pruned tree tree' shape shape' where
  root := pruned.root
  type := pruned.type
  counter := pruned.counter
  kept other alive := by
    obtain ⟨placeKept, prefixKept⟩ := pruned.kept other alive
    have aliveBefore := Shape.alive_of_alive_prune (placeKept ▸ alive)
    exact ⟨by rw [placeKept, Shape.place_prune_of_ne aliveBefore.2], prefixKept⟩

namespace Layout

variable {tree : QdParseTree ν} {entries : Stored ν} {shape : Shape} {pending : List Path}

/-- Two literal children with the same key are one: the key names the
parent's prefix and the token. -/
theorem key_inj (layout : Layout tree entries shape pending) {path other : Path} {token otherToken : List UInt8}
    (alive : shape.place (path ++ [.lit token]) ≠ none) (otherAlive : shape.place (other ++ [.lit otherToken]) ≠ none)
    (same : shape.key path token = shape.key other otherToken) : path = other ∧ token = otherToken := by
  obtain ⟨samePrefix, sameToken⟩ := generateHkey_inj (layout.noNul _ _ alive) (layout.noNul _ _ otherAlive) same
  exact ⟨layout.prefixes _ _ (layout.closed alive) (layout.closed otherAlive) samePrefix, sameToken⟩

/-- A live path is shorter than the number of nodes made: the nodes of its
beginnings are live at distinct addresses below `nextNode`. -/
theorem length_lt_nextNode (layout : Layout tree entries shape pending) {path : Path}
    (alive : shape.place path ≠ none) : path.length < tree.nextNode := by
  have beginAlive : ∀ i : Fin (path.length + 1), (shape.place (path.take i)).isSome := fun i =>
    Option.isSome_iff_ne_none.mpr
      (layout.closed (show shape.place (path.take i ++ path.drop i) ≠ none by rwa [List.take_append_drop]))
  let address : Fin (path.length + 1) → Fin tree.nextNode := fun i =>
    ⟨(shape.place (path.take i)).get (beginAlive i), layout.below _ _ (Option.some_get _).symm⟩
  have injective : Function.Injective address := by
    intro i j same
    have sameAddress := congrArg Fin.val same
    have takeSame : path.take i = path.take j := layout.injective _ _ _ (Option.some_get (beginAlive i)).symm
      (by rw [← Option.some_get (beginAlive j)]; exact congrArg some sameAddress.symm)
    have lengths := congrArg List.length takeSame
    simp only [List.length_take] at lengths
    exact Fin.ext (by omega)
  exact Fin.le_of_injective address injective

section Prune

variable {path : Path} {edge : Glob (List UInt8)}

/-- A handle that fits stays fitting when another node is pruned. -/
theorem handleFits_prune (layout : Layout tree entries shape pending) {other : Path} {node : ParseNode ν}
    (alive : shape.place other ≠ none) (differ : other ≠ path ++ [edge])
    (prunedAlive : shape.place (path ++ [edge]) ≠ none) (fits : HandleFits shape other node) :
    HandleFits (shape.prune path edge) other node := by
  rcases List.eq_nil_or_concat' other with rfl | ⟨parent, item, rfl⟩
  · rwa [handleFits_root] at fits ⊢
  · cases item with
    | lit token =>
        rw [handleFits_lit] at fits ⊢
        obtain ⟨h, handle, named, made⟩ := fits
        refine ⟨h, handle, ?_, by rwa [Shape.nextHandle_prune]⟩
        rw [Shape.key_prune]
        -- the pruned node's key is another node's
        refine Shape.handleKey_prune named fun prunedToken isLit same => differ ?_
        subst isLit
        obtain ⟨rfl, rfl⟩ := layout.key_inj alive prunedAlive same
        rfl
    | one => rwa [handleFits_wildcard _ _ (.inl rfl)] at fits ⊢
    | many => rwa [handleFits_wildcard _ _ (.inr rfl)] at fits ⊢

/-- The node of a live path other than the parent keeps fitting when a
childless node is pruned. -/
theorem fits_prune_other (layout : Layout tree entries shape pending) {address : Nat}
    (placed : shape.place (path ++ [edge]) = some address) (leaf : ∀ item, shape.place (path ++ [edge] ++ [item]) = none)
    {other : Path} {otherNode : ParseNode ν} (alive : shape.place other ≠ none) (notParent : other ≠ path)
    (notPruned : other ≠ path ++ [edge]) (fits : NodeFits entries shape other otherNode) :
    NodeFits entries (shape.prune path edge) other otherNode := by
  have childOutside : ∀ item, other ++ [item] ≠ path ++ [edge] := fun item same =>
    notParent (List.append_singleton_inj.mp same).1
  refine ⟨fits.matchType, ?parent, ?one, ?many, fits.children_nodup, ?children, fits.pattern, fits.hkeyPrefix,
    layout.handleFits_prune alive notPruned (by rw [placed]; simp) fits.handle, fits.token⟩
  case parent =>
    rw [fits.parent]
    split_ifs with root
    · rfl
    · -- the parent of a live path is not the pruned node, which has no child
      refine (Shape.place_prune_of_ne fun same => alive ?_).symm
      rw [← List.dropLast_concat_getLast root, same]
      exact leaf _
  case one => rw [fits.match1Child, Shape.place_prune_of_ne (childOutside _)]
  case many => rw [fits.matchGlobChild, Shape.place_prune_of_ne (childOutside _)]
  case children =>
    intro child
    rw [fits.mem_children]
    exact exists_congr fun token => by rw [Shape.place_prune_of_ne (childOutside _)]

/-- The parent, with the pruned child unlinked, fits. -/
theorem fits_prune_parent (layout : Layout tree entries shape pending) {parentAddress address : Nat}
    {parentNode : ParseNode ν} (parentPlaced : shape.place path = some parentAddress)
    (placed : shape.place (path ++ [edge]) = some address) (fits : NodeFits entries shape path parentNode) :
    NodeFits entries (shape.prune path edge) path (parentNode.unlink (edgeType edge) address) := by
  have alive : shape.place path ≠ none := by rw [parentPlaced]; simp
  have parentField : (parentNode.unlink (edgeType edge) address).parent =
      if path = [] then none else (shape.prune path edge).place path.dropLast := by
    have same : (parentNode.unlink (edgeType edge) address).parent = parentNode.parent := by cases edge <;> rfl
    rw [same, fits.parent]
    split_ifs with root
    · rfl
    · exact (Shape.place_prune_of_ne fun same => by simpa using congrArg List.length same).symm
  have handleField : HandleFits (shape.prune path edge) path (parentNode.unlink (edgeType edge) address) := by
    have same : (parentNode.unlink (edgeType edge) address).handle = parentNode.handle := by cases edge <;> rfl
    have fitsHandle : HandleFits (shape.prune path edge) path parentNode :=
      layout.handleFits_prune alive (by simp) (by rw [placed]; simp) fits.handle
    unfold HandleFits at fitsHandle ⊢
    rwa [same]
  have hkeyPrefixField : (parentNode.unlink (edgeType edge) address).hkeyPrefix = shape.hkeyPrefix path := by
    have same : (parentNode.unlink (edgeType edge) address).hkeyPrefix = parentNode.hkeyPrefix := by
      cases edge <;> rfl
    rw [same, fits.hkeyPrefix]
  have tokenField : (parentNode.unlink (edgeType edge) address).token = lastToken path := by
    have same : (parentNode.unlink (edgeType edge) address).token = parentNode.token := by cases edge <;> rfl
    rw [same, fits.token]
  have otherChildren : ∀ token, edge ≠ .lit token →
      (shape.prune path edge).place (path ++ [.lit token]) = shape.place (path ++ [.lit token]) := fun token other =>
    Shape.place_prune_of_ne fun same => other (List.append_singleton_inj.mp same).2.symm
  cases edge with
  | lit token =>
      refine ⟨fits.matchType, parentField, ?_, ?_, fits.children_nodup.erase address, ?_, fits.pattern,
        hkeyPrefixField, handleField, tokenField⟩
      · dsimp only [ParseNode.unlink, edgeType]
        rw [fits.match1Child, Shape.place_prune_of_ne (by simp)]
      · dsimp only [ParseNode.unlink, edgeType]
        rw [fits.matchGlobChild, Shape.place_prune_of_ne (by simp)]
      · intro child
        dsimp only [ParseNode.unlink, edgeType]
        rw [fits.children_nodup.mem_erase_iff, fits.mem_children]
        constructor
        · rintro ⟨notPruned, other, childPlaced⟩
          have differ : path ++ [.lit other] ≠ path ++ [.lit token] := fun same => by
            rw [same, placed, Option.some.injEq] at childPlaced
            exact notPruned childPlaced.symm
          exact ⟨other, by rwa [Shape.place_prune_of_ne differ]⟩
        · rintro ⟨other, childPlaced⟩
          have differ : path ++ [.lit other] ≠ path ++ [.lit token] := fun same => by
            rw [same, Shape.place_prune_self] at childPlaced
            cases childPlaced
          rw [Shape.place_prune_of_ne differ] at childPlaced
          exact ⟨fun same => differ (layout.injective _ _ _ childPlaced (same ▸ placed)), other, childPlaced⟩
  | one =>
      refine ⟨fits.matchType, parentField, ?_, ?_, fits.children_nodup, ?_, fits.pattern, hkeyPrefixField,
        handleField, tokenField⟩
      · rw [Shape.place_prune_self]
        rfl
      · dsimp only [ParseNode.unlink, edgeType]
        rw [fits.matchGlobChild, Shape.place_prune_of_ne (by simp)]
      · intro child
        dsimp only [ParseNode.unlink, edgeType]
        rw [fits.mem_children]
        exact exists_congr fun other => by rw [otherChildren other (by simp)]
  | many =>
      refine ⟨fits.matchType, parentField, ?_, ?_, fits.children_nodup, ?_, fits.pattern, hkeyPrefixField,
        handleField, tokenField⟩
      · dsimp only [ParseNode.unlink, edgeType]
        rw [fits.match1Child, Shape.place_prune_of_ne (by simp)]
      · rw [Shape.place_prune_self]
        rfl
      · intro child
        dsimp only [ParseNode.unlink, edgeType]
        rw [fits.mem_children]
        exact exists_congr fun other => by rw [otherChildren other (by simp)]

/-- The hash table as a map keeps one key per literal child: a pruned
literal node's key is the one that leaves. -/
theorem keyed_prune (layout : Layout tree entries shape pending) {address : Nat}
    (placed : shape.place (path ++ [edge]) = some address) (key : List UInt8) (child : Nat) :
    AssocList.lookup (shape.prune path edge).map.entries key = some child ↔
      ∃ other token, (shape.prune path edge).place (other ++ [.lit token]) = some child ∧
        key = (shape.prune path edge).key other token := by
  have prunedAlive : shape.place (path ++ [edge]) ≠ none := by rw [placed]; simp
  -- the other literal children are where they were
  have kept : ∀ other token, other ++ [.lit token] ≠ path ++ [edge] →
      (shape.prune path edge).place (other ++ [.lit token]) = shape.place (other ++ [.lit token]) :=
    fun other token differ => Shape.place_prune_of_ne differ
  cases edge with
  | lit pruned =>
      have present := (layout.keyed (shape.key path pruned) address).mpr ⟨path, pruned, placed, rfl⟩
      have mapEntries : (shape.prune path (.lit pruned)).map.entries =
          AssocList.erase shape.map.entries (shape.key path pruned) := by
        simp only [Shape.prune]
        rw [KeyMap.remove_of_present present]
      rw [mapEntries, AssocList.lookup_erase, Shape.key_prune]
      constructor
      · intro found
        split_ifs at found with isPruned
        obtain ⟨other, token, childPlaced, sameKey⟩ := (layout.keyed key child).mp found
        have differ : other ++ [.lit token] ≠ path ++ [.lit pruned] := fun same => by
          obtain ⟨rfl, sameItem⟩ := List.append_singleton_inj.mp same
          rw [Glob.lit.inj sameItem] at sameKey
          exact isPruned sameKey
        exact ⟨other, token, by rw [kept other token differ]; exact childPlaced, sameKey⟩
      · rintro ⟨other, token, childPlaced, sameKey⟩
        have differ : other ++ [.lit token] ≠ path ++ [.lit pruned] := fun same => by
          rw [same, Shape.place_prune_self] at childPlaced
          cases childPlaced
        rw [kept other token differ] at childPlaced
        have notPruned : key ≠ shape.key path pruned := fun same => by
          obtain ⟨rfl, rfl⟩ := layout.key_inj (by rw [childPlaced]; simp) prunedAlive (sameKey ▸ same)
          exact differ rfl
        rw [if_neg notPruned]
        exact (layout.keyed key child).mpr ⟨other, token, childPlaced, sameKey⟩
  | one =>
      rw [show (shape.prune path .one).map = shape.map from rfl, layout.keyed]
      exact exists_congr fun other => exists_congr fun token => by rw [kept other token (by simp)]; rfl
  | many =>
      rw [show (shape.prune path .many).map = shape.map from rfl, layout.keyed]
      exact exists_congr fun other => exists_congr fun token => by rw [kept other token (by simp)]; rfl

/-- Freeing a pruned node removes its hash entry through its handle, as the
map loses its key. -/
theorem refines_prune (layout : Layout tree entries shape pending) {address : Nat} {node : ParseNode ν}
    (placed : shape.place (path ++ [edge]) = some address) (nodes : tree.nodes address = some node)
    (parentAddress : Nat) (unlinked : ParseNode ν) :
    Refines ((tree.setNode parentAddress unlinked).freeParseNode address node).hash
      (shape.prune path edge).map := by
  have fits := layout.fits placed nodes
  cases edge with
  | lit pruned =>
      obtain ⟨h, handle, named, _⟩ := (handleFits_lit _ _ _ _).mp fits.handle
      have present := (layout.keyed (shape.key path pruned) address).mpr ⟨path, pruned, placed, rfl⟩
      obtain ⟨_, removed⟩ := layout.refines.removeByHandle2 (some h)
      have unnamed : (shape.map.remove (shape.key path pruned)).2.handleKey h = none := by
        simp [KeyMap.remove_of_present present, named]
      have freed := removed.handleFree (some h)
      simp only [KeyMap.removeByHandle2, Option.bind_some, named] at freed
      rw [KeyMap.handleFree_of_unnamed unnamed] at freed
      simp only [QdParseTree.freeParseNode, handle, QdParseTree.setNode, qdHashRemoveByHandle]
      exact freed
  | one =>
      have noHandle := (handleFits_wildcard _ _ (.inl rfl) _).mp fits.handle
      simp only [QdParseTree.freeParseNode, noHandle, QdParseTree.setNode]
      exact layout.refines
  | many =>
      have noHandle := (handleFits_wildcard _ _ (.inr rfl) _).mp fits.handle
      simp only [QdParseTree.freeParseNode, noHandle, QdParseTree.setNode]
      exact layout.refines

/-- Pruning the node of a pending path, which stores no pattern and has no
child, keeps the layout, with its parent's path pending instead. -/
theorem prune (layout : Layout tree entries shape [path ++ [edge]]) {parentAddress address : Nat}
    {parentNode node : ParseNode ν} (parentPlaced : shape.place path = some parentAddress)
    (parentNodes : tree.nodes parentAddress = some parentNode) (placed : shape.place (path ++ [edge]) = some address)
    (nodes : tree.nodes address = some node) (unstored : AssocList.lookup entries (path ++ [edge]) = none)
    (leaf : ∀ item, shape.place (path ++ [edge] ++ [item]) = none) :
    Layout ((tree.setNode parentAddress (parentNode.unlink (edgeType edge) address)).freeParseNode address node)
      entries (shape.prune path edge) [path] where
  root := by
    rw [Shape.place_prune_of_ne (by simp), layout.root]
    rfl
  nodeAt other child placedNow := by
    obtain ⟨childPlaced, notPruned⟩ := Shape.place_of_place_prune placedNow
    have notAddress : child ≠ address := fun same =>
      notPruned (layout.injective _ _ _ childPlaced (same ▸ placed))
    by_cases isParent : other = path
    · subst isParent
      rw [parentPlaced, Option.some.injEq] at childPlaced
      subst childPlaced
      refine ⟨_, ?_, layout.fits_prune_parent parentPlaced placed (layout.fits parentPlaced parentNodes)⟩
      simp [QdParseTree.freeParseNode, QdParseTree.setNode, Function.update_of_ne notAddress]
    · obtain ⟨otherNode, otherNodes, fits⟩ := layout.nodeAt other child childPlaced
      have notParentAddress : child ≠ parentAddress := fun same =>
        isParent (layout.injective _ _ _ childPlaced (same ▸ parentPlaced))
      refine ⟨otherNode, ?_, layout.fits_prune_other placed leaf (by rw [childPlaced]; simp) isParent notPruned fits⟩
      simp [QdParseTree.freeParseNode, QdParseTree.setNode, Function.update_of_ne notAddress,
        Function.update_of_ne notParentAddress, otherNodes]
  injective other other' child placedOther placedOther' :=
    layout.injective _ _ _ (Shape.place_of_place_prune placedOther).1 (Shape.place_of_place_prune placedOther').1
  allocated other made := by
    have notAddress : other ≠ address := fun same => by simp [QdParseTree.freeParseNode, same] at made
    obtain ⟨otherPath, otherPlaced⟩ := layout.allocated_setNode parentPlaced _ other
      (by simpa [QdParseTree.freeParseNode, Function.update_of_ne notAddress] using made)
    have notPruned : otherPath ≠ path ++ [edge] := fun same => by
      rw [same, placed, Option.some.injEq] at otherPlaced
      exact notAddress otherPlaced.symm
    exact ⟨otherPath, by rw [Shape.place_prune_of_ne notPruned, otherPlaced]⟩
  justified other aliveNow := by
    obtain ⟨alive, notPruned⟩ := Shape.alive_of_alive_prune aliveNow
    rcases layout.justified other alive with root | ⟨key, isKey, begins⟩
    · exact .inl root
    · rcases List.mem_append.mp isKey with isStored | isPending
      · exact .inr ⟨key, List.mem_append_left _ isStored, begins⟩
      · -- below the pruned path only its parent's remains
        rw [List.mem_singleton] at isPending
        subst isPending
        rcases List.prefix_concat_iff.mp begins with same | before
        · exact absurd same notPruned
        · exact .inr ⟨path, List.mem_append_right _ (List.mem_singleton_self _), before⟩
  complete key isKey other begins := by
    have alive := layout.complete key isKey other begins
    rw [Shape.place_prune_of_ne]
    · exact alive
    · -- a stored pattern does not run through the pruned node: it is none and has no child
      rintro rfl
      obtain ⟨rest, joined⟩ := begins
      cases rest with
      | nil =>
          rw [List.append_nil] at joined
          subst joined
          exact AssocList.lookup_eq_none.mp unstored isKey
      | cons item rest =>
          have below := layout.complete key isKey (path ++ [edge] ++ [item])
            ⟨rest, by rw [← joined, List.append_assoc, List.singleton_append]⟩
          exact below (leaf item)
  closed {other more} aliveNow := by
    obtain ⟨alive, notPruned⟩ := Shape.alive_of_alive_prune aliveNow
    rw [Shape.place_prune_of_ne]
    · exact layout.closed alive
    · rintro rfl
      cases more with
      | nil => exact notPruned (List.append_nil _)
      | cons item rest =>
          refine layout.closed (show shape.place (path ++ [edge] ++ [item] ++ rest) ≠ none by simpa using alive) ?_
          exact leaf item
  below other child childPlaced := layout.below other child (Shape.place_of_place_prune childPlaced).1
  prefixes other other' alive alive' same :=
    layout.prefixes other other' (Shape.alive_of_alive_prune alive).1 (Shape.alive_of_alive_prune alive').1 same
  refines := layout.refines_prune placed nodes parentAddress _
  keyed := layout.keyed_prune placed
  noNul other token alive := layout.noNul other token (Shape.alive_of_alive_prune alive).1
  distinct := layout.distinct
  stored := layout.stored
  nonempty := layout.nonempty

end Prune

/-- A node the loop stops at needs no pending: it is the root, holds a
pattern, or has a child that a stored pattern goes through. -/
theorem settle_at (layout : Layout tree entries shape [path]) {address : Nat} {node : ParseNode ν}
    (placed : shape.place path = some address) (nodes : tree.nodes address = some node)
    (needed : path = [] ∨ ¬(node.pattern.isNone = true ∧ node.childCount = 0)) : Layout tree entries shape [] := by
  have fits := layout.fits placed nodes
  refine layout.settle fun key isPending => ?_
  rw [List.mem_singleton] at isPending
  subst isPending
  rcases needed with root | needed
  · exact .inl root
  · by_cases stored : node.pattern.isNone = true
    · -- a child is live, and only a stored pattern justifies it
      have childless : ¬node.childCount = 0 := fun zero => needed ⟨stored, zero⟩
      rw [fits.childCount_eq_zero] at childless
      obtain ⟨item, alive⟩ := not_forall.mp childless
      rcases layout.justified _ alive with empty | ⟨key, isKey, begins⟩
      · simp at empty
      · rcases List.mem_append.mp isKey with isStored | isPending
        · exact .inr ⟨key, isStored, (List.prefix_append _ _).trans begins⟩
        · rw [List.mem_singleton] at isPending
          subst isPending
          exact absurd begins.length_le (by simp)
    · have holds : AssocList.lookup entries key ≠ none := by
        rw [← fits.pattern]
        simpa [Option.isNone_iff_eq_none] using stored
      exact .inr ⟨key, by_contra fun absent => holds (AssocList.lookup_eq_none.mpr absent), List.prefix_refl _⟩

/-- Clearing the pattern of a node takes its path's entry out, and leaves the
path pending. -/
theorem clear (layout : Layout tree entries shape []) {key : Path} {address : Nat} {node : ParseNode ν}
    (placed : shape.place key = some address) (nodes : tree.nodes address = some node) :
    Layout (tree.setNode address { node with pattern := none, payload := none }) (AssocList.erase entries key)
      shape [key] where
  root := layout.root
  nodeAt path child childPlaced := by
    by_cases isKey : path = key
    · subst isKey
      rw [placed, Option.some.injEq] at childPlaced
      subst childPlaced
      have fits := layout.fits placed nodes
      refine ⟨{ node with pattern := none, payload := none }, by simp [QdParseTree.setNode], ?_⟩
      exact { fits with pattern := by rw [AssocList.lookup_erase, if_pos (Eq.refl _)]; rfl }
    · obtain ⟨other, otherNodes, fits⟩ := layout.nodeAt path child childPlaced
      have differ : child ≠ address := fun same =>
        isKey (layout.injective _ _ _ childPlaced (same ▸ placed))
      refine ⟨other, by simp [QdParseTree.setNode, Function.update_of_ne differ, otherNodes], fits.restore ?_⟩
      rw [AssocList.lookup_erase, if_neg isKey]
  injective := layout.injective
  allocated := layout.allocated_setNode placed _
  justified path alive := by
    rcases layout.justified path alive with root | ⟨stored, isStored, begins⟩
    · exact .inl root
    · rw [List.append_nil] at isStored
      by_cases isKey : stored = key
      · exact .inr ⟨stored, List.mem_append_right _ (List.mem_singleton.mpr isKey), begins⟩
      · exact .inr ⟨stored, List.mem_append_left _ (AssocList.mem_keys_erase.mpr ⟨isStored, isKey⟩), begins⟩
  complete stored isStored := layout.complete stored (AssocList.mem_keys_erase.mp isStored).1
  closed := layout.closed
  below := layout.below
  prefixes := layout.prefixes
  refines := layout.refines
  keyed := layout.keyed
  noNul := layout.noNul
  distinct := AssocList.nodup_erase layout.distinct key
  stored stored value found := by
    rw [AssocList.lookup_erase] at found
    split_ifs at found
    exact layout.stored stored value found
  nonempty isRoot := layout.nonempty (AssocList.mem_keys_erase.mp isRoot).1

/-- The loop of `qd_parse_tree_remove_pattern` from the node of a pending path
and its parent: it prunes up the path while the node holds no pattern, has no
child and is not the root, and stops with nothing pending. By induction on the
fuel, which the path's length bounds. -/
theorem pruneLoop_spec (layout : Layout tree entries shape [path]) {address : Nat}
    (placed : shape.place path = some address) {fuel : Nat} (enough : path.length < fuel) :
    ∃ tree' shape', tree.pruneLoop fuel address (if path = [] then none else shape.place path.dropLast) =
        some tree' ∧ Layout tree' entries shape' [] ∧ Pruned tree tree' shape shape' := by
  induction fuel generalizing tree shape path address with
  | zero => exact absurd enough (Nat.not_lt_zero _)
  | succ fuel ih =>
      obtain ⟨node, nodes, fits⟩ := layout.nodeAt path address placed
      rcases List.eq_nil_or_concat' path with rfl | ⟨parent, edge, rfl⟩
      · -- at the root the loop stops
        refine ⟨tree, shape, ?_, layout.settle_at placed nodes (.inl (Eq.refl _)), Pruned.rfl⟩
        simp [QdParseTree.pruneLoop, nodes]
      · obtain ⟨parentAddress, parentPlaced⟩ := Option.ne_none_iff_exists'.mp
          (layout.closed (show shape.place (parent ++ [edge]) ≠ none by rw [placed]; simp))
        have start : (if parent ++ [edge] = [] then none else shape.place (parent ++ [edge]).dropLast) =
            some parentAddress := by simp [parentPlaced]
        rw [start]
        by_cases prunable : node.pattern.isNone = true ∧ node.childCount = 0
        · obtain ⟨parentNode, parentNodes, parentFits⟩ := layout.nodeAt parent parentAddress parentPlaced
          have unstored : AssocList.lookup entries (parent ++ [edge]) = none := by
            rw [← fits.pattern, Option.isNone_iff_eq_none.mp prunable.1]
            rfl
          have pruned := layout.prune parentPlaced parentNodes placed nodes unstored
            (fits.childCount_eq_zero.mp prunable.2)
          have matchType : node.matchType = edgeType edge := by rw [fits.matchType, nodeType_append]
          -- the unlinked parent keeps its own parent
          have grandparent : (parentNode.unlink (edgeType edge) address).parent =
              if parent = [] then none else (shape.prune parent edge).place parent.dropLast := by
            have same : (parentNode.unlink (edgeType edge) address).parent = parentNode.parent := by
              cases edge <;> rfl
            rw [same, parentFits.parent]
            split_ifs with root
            · rfl
            · exact (Shape.place_prune_of_ne fun same => by simpa using congrArg List.length same).symm
          obtain ⟨tree', shape', loop, prunedLayout, prunedAll⟩ :=
            ih pruned (by rwa [Shape.place_prune_of_ne (by simp)]) (by simp at enough; omega)
          refine ⟨tree', shape', ?_, prunedLayout, prunedAll.prune⟩
          simp only [QdParseTree.pruneLoop, nodes, parentNodes, matchType, Option.bind_eq_bind, Option.bind_some,
            if_pos prunable]
          rw [grandparent]
          exact loop
        · refine ⟨tree, shape, ?_, layout.settle_at placed nodes (.inr prunable), Pruned.rfl⟩
          simp only [QdParseTree.pruneLoop, nodes, Option.bind_eq_bind, Option.bind_some, if_neg prunable]

/-- `qd_parse_tree_remove_pattern` does what `Stored.remove` says: it answers
the payload stored under the normal form of the copied pattern, or null, and
the tree no longer stores that normal form. -/
theorem qdParseTreeRemovePattern_spec (layout : Layout tree entries shape []) (view : List UInt8) :
    ∃ tree' shape', qdParseTreeRemovePattern tree view =
        some ((Stored.remove entries (normalForm tree.type (qdIteratorCopy view).octets)).1.bind (·.2), tree') ∧
      Layout tree' (Stored.remove entries (normalForm tree.type (qdIteratorCopy view).octets)).2 shape' [] ∧
      Pruned tree tree' shape shape' := by
  have found := layout.parseNodeGetPattern_eq (qdIteratorCopy view).no_nul
  unfold qdParseTreeRemovePattern Stored.remove
  rw [found]
  simp only [Option.bind_eq_bind, Option.bind_some]
  cases stored : AssocList.lookup entries (normalForm tree.type (qdIteratorCopy view).octets) with
  | none =>
      -- nothing is stored under it: nothing changes
      refine ⟨tree, shape, rfl, ?_, Pruned.rfl⟩
      rwa [AssocList.erase_of_not_mem (AssocList.lookup_eq_none.mp stored)]
  | some value =>
      have isKey : normalForm tree.type (qdIteratorCopy view).octets ∈ AssocList.keys entries :=
        by_contra fun absent => by rw [AssocList.lookup_eq_none.mpr absent] at stored; cases stored
      obtain ⟨address, placed⟩ := Option.ne_none_iff_exists'.mp
        (layout.complete _ isKey _ (List.prefix_refl _))
      obtain ⟨node, nodes, fits⟩ := layout.nodeAt _ address placed
      -- the payload answered is the stored one
      have payload : node.payload = value.2 := by
        have holds := fits.pattern
        rw [stored] at holds
        obtain ⟨pattern, _, same⟩ := Option.map_eq_some_iff.mp holds
        rw [← same]
      -- the node is cleared, and the loop prunes from it with fuel for every node made
      have cleared := layout.clear placed nodes
      have fuel : (normalForm tree.type (qdIteratorCopy view).octets).length <
          (tree.setNode address { node with pattern := none, payload := none }).nextNode + 1 :=
        Nat.lt_succ_of_lt (layout.length_lt_nextNode (by rw [placed]; simp))
      obtain ⟨tree', shape', loop, prunedLayout, pruned⟩ := cleared.pruneLoop_spec placed fuel
      rw [← fits.parent] at loop
      refine ⟨tree', shape', ?_, prunedLayout, ⟨pruned.root, pruned.type, pruned.counter, pruned.kept⟩⟩
      simp only [Option.bind_some, placed, nodes, payload]
      rw [loop]
      rfl

end Layout

end DispatchRouter.ParseTree
