/-
# Adding a pattern

`parse_node_add_pattern` under the layout. Each round of its loop follows the
child for the next item of the normal form, or makes it (`Layout.grow`), so
the walk ends at the node of the normal form; that node takes the pattern
unless it is the root or holds one already. The tree then stores what
`Stored.add` says.

The nodes the walk makes take the next values of the 32-bit prefix counter
(`Walked`). The layout stays only while those values are no live node's
prefix, which holds until the counter wraps around.
-/

import DispatchRouter.ParseTree.Grow

namespace DispatchRouter.ParseTree

open Math Hash

variable {ν : Type}

/-- The counter advanced by one and then by `i` is advanced by `i + 1`. -/
theorem add_one_add_toUInt32 (next : UInt32) (i : Nat) : next + 1 + i.toUInt32 = next + (i + 1).toUInt32 := by
  apply UInt32.toNat.inj
  simp only [UInt32.toNat_add, Nat.toUInt32_eq, UInt32.toNat_ofNat', UInt32.toNat_one]
  omega

/-- The counter comes back to a value only after `2^32` steps. -/
theorem add_toUInt32_ne (next : UInt32) {i : Nat} (positive : 0 < i) (small : i < 2 ^ 32) :
    next + i.toUInt32 ≠ next := by
  intro same
  have sameNat := congrArg UInt32.toNat same
  simp only [UInt32.toNat_add, Nat.toUInt32_eq, UInt32.toNat_ofNat'] at sameNat
  have := next.toNat_lt
  omega

theorem token_of_globOf_eq_lit {type : ParseTreeType} {token other : List UInt8}
    (isLit : globOf type token = .lit other) : other = token := by
  unfold globOf at isLit
  split_ifs at isLit
  exact (Glob.lit.inj isLit).symm

namespace QdParseTree

/-- A wildcard child: the one there, or the one made. -/
theorem wildcardChild_eq {tree : QdParseTree ν} {address : Nat} {node : ParseNode ν}
    (nodes : tree.nodes address = some node) (fresh : address ≠ tree.nextNode) {edge : Glob (List UInt8)}
    (wildcard : edge = .one ∨ edge = .many) {child : ParseNode ν → Option Nat}
    {setChild : ParseNode ν → Nat → ParseNode ν}
    (linked : setChild node tree.nextNode = linkChild node edge tree.nextNode) :
    tree.wildcardChild address (edgeType edge) child setChild =
      some (match child node with
        | some existing => (tree, some existing)
        | none => (tree.grow address node edge, some tree.nextNode)) := by
  have notToken : edgeType edge ≠ .token := by rcases wildcard with rfl | rfl <;> decide
  simp only [wildcardChild, nodes, Option.bind_eq_bind, Option.bind_some]
  cases child node with
  | some existing => rfl
  | none =>
      simp only [newParseNode, if_neg notToken, setNode, Function.update_of_ne fresh,
        Function.update_of_ne (Ne.symm fresh), nodes, Function.update_self, Option.bind_some, linked]
      -- the made node is written twice, first without its parent
      rw [Function.update_comm (Ne.symm fresh), Function.update_idem]
      rcases wildcard with rfl | rfl <;> rfl

end QdParseTree

/-- What the walk of `parse_node_add_pattern` changed: it made nodes that took
the next `made` values of the prefix counter, and every node that was live
stays where it was, with its prefix. -/
structure Walked (tree tree' : QdParseTree ν) (shape shape' : Shape) (made : Nat) : Prop where
  root : tree'.root = tree.root
  type : tree'.type = tree.type
  counter : tree'.nextHkeyPrefix = tree.nextHkeyPrefix + made.toUInt32
  kept : ∀ path, shape.place path ≠ none →
    shape'.place path = shape.place path ∧ shape'.hkeyPrefix path = shape.hkeyPrefix path
  madePrefix : ∀ path, shape'.place path ≠ none → shape.place path = none →
    ∃ i < made, shape'.hkeyPrefix path = tree.nextHkeyPrefix + i.toUInt32

theorem Walked.rfl {tree : QdParseTree ν} {shape : Shape} : Walked tree tree shape shape 0 where
  root := Eq.refl _
  type := Eq.refl _
  counter := by simp
  kept _ _ := ⟨Eq.refl _, Eq.refl _⟩
  madePrefix _ alive dead := absurd dead alive

/-- A node made, and then a walk from it. -/
theorem Walked.grow {tree tree' : QdParseTree ν} {shape shape' : Shape} {path : Path} {address : Nat}
    {node : ParseNode ν} {edge : Glob (List UInt8)} {made : Nat}
    (missing : shape.place (path ++ [edge]) = none)
    (walked : Walked (tree.grow address node edge) tree' (shape.grow path edge tree.nextNode tree.nextHkeyPrefix)
      shape' made) :
    Walked tree tree' shape shape' (made + 1) where
  root := walked.root
  type := walked.type
  counter := by
    rw [walked.counter]
    exact add_one_add_toUInt32 _ _
  kept other alive := by
    have grown : (shape.grow path edge tree.nextNode tree.nextHkeyPrefix).place other = shape.place other :=
      Shape.place_grow_of_ne (Shape.ne_of_alive missing alive)
    obtain ⟨placeKept, prefixKept⟩ := walked.kept other (by rwa [grown])
    rw [placeKept, prefixKept, grown, Shape.hkeyPrefix_grow_of_ne (Shape.ne_of_alive missing alive)]
    exact ⟨Eq.refl _, Eq.refl _⟩
  madePrefix other alive dead := by
    by_cases isNew : other = path ++ [edge]
    · -- the first node made took the counter's value
      subst isNew
      refine ⟨0, Nat.succ_pos made, ?_⟩
      rw [(walked.kept _ (by simp)).2, Shape.hkeyPrefix_grow_self]
      simp
    · obtain ⟨i, small, isPrefix⟩ := walked.madePrefix other alive (by rwa [Shape.place_grow_of_ne isNew])
      refine ⟨i + 1, Nat.succ_lt_succ small, ?_⟩
      rw [isPrefix]
      exact add_one_add_toUInt32 _ _

/-- A node fits whatever is stored, as long as its own path stores the same. -/
theorem NodeFits.restore {entries entries' : Stored ν} {shape : Shape} {path : Path} {node : ParseNode ν}
    (fits : NodeFits entries shape path node)
    (same : AssocList.lookup entries' path = AssocList.lookup entries path) : NodeFits entries' shape path node :=
  { fits with pattern := by rw [same]; exact fits.pattern }

namespace Layout

variable {tree : QdParseTree ν} {entries : Stored ν} {shape : Shape} {pending : List Path}

/-- More paths may be pending. -/
theorem widen (layout : Layout tree entries shape pending) {pending' : List Path} (more : pending ⊆ pending') :
    Layout tree entries shape pending' :=
  { layout with
    justified := fun path alive => (layout.justified path alive).imp_right fun ⟨key, isKey, begins⟩ =>
      ⟨key, List.mem_append.mpr ((List.mem_append.mp isKey).imp_right fun isPending => more isPending), begins⟩ }

/-- A pending path that is the root or begins a stored one need not be pending. -/
theorem settle (layout : Layout tree entries shape pending)
    (covered : ∀ key ∈ pending, key = [] ∨ ∃ stored ∈ AssocList.keys entries, key <+: stored) :
    Layout tree entries shape [] :=
  { layout with
    justified := fun path alive => by
      rcases layout.justified path alive with root | ⟨key, isKey, begins⟩
      · exact .inl root
      · rcases List.mem_append.mp isKey with isStored | isPending
        · exact .inr ⟨key, List.mem_append_left _ isStored, begins⟩
        · rcases covered key isPending with rfl | ⟨stored, isStored, longer⟩
          · exact .inl (List.prefix_nil.mp begins)
          · exact .inr ⟨stored, List.mem_append_left _ isStored, begins.trans longer⟩ }

/-- One round of the loop of `parse_node_add_pattern` follows the child for
the item of the token, or makes it. -/
theorem addChild_eq (layout : Layout tree entries shape pending) {path : Path} {address : Nat}
    {node : ParseNode ν} (placed : shape.place path = some address) (nodes : tree.nodes address = some node)
    {token : List UInt8} (noNul : 0 ∉ token) :
    tree.addChild address node token =
      some (match shape.place (path ++ [globOf tree.type token]) with
        | some child => (tree, some child)
        | none => (tree.grow address node (globOf tree.type token), some tree.nextNode)) := by
  have fits := layout.fits placed nodes
  have fresh : address ≠ tree.nextNode := Nat.ne_of_lt (layout.below _ _ placed)
  unfold QdParseTree.addChild
  split_ifs with isOne isGlob
  · have edge : globOf tree.type token = .one := by simp [globOf, isOne]
    rw [edge, ← fits.match1Child]
    exact QdParseTree.wildcardChild_eq nodes fresh (.inl (Eq.refl (Glob.one : Glob (List UInt8)))) (Eq.refl _)
  · have edge : globOf tree.type token = .many := by simp [globOf, isOne, isGlob]
    rw [edge, ← fits.matchGlobChild]
    exact QdParseTree.wildcardChild_eq nodes fresh (.inr (Eq.refl (Glob.many : Glob (List UInt8)))) (Eq.refl _)
  · have edge : globOf tree.type token = .lit token := by simp [globOf, isOne, isGlob]
    rw [edge, layout.findChild placed nodes noNul]
    cases missing : shape.place (path ++ [.lit token]) with
    | some child => rfl
    | none =>
        obtain ⟨answer, _⟩ := layout.insertChild placed nodes missing noNul tree.nextNode tree.nextHkeyPrefix
        simp only [QdParseTree.newParseNode, nodes, answer, Option.bind_eq_bind, Option.bind_some,
          QdParseTree.setNode, Function.update_of_ne fresh, if_true]
        -- the source writes the child before it links it in
        rw [Function.update_comm (Ne.symm fresh)]
        simp only [QdParseTree.grow, enterChild, answer]
        rfl

/-- The loop of `parse_node_add_pattern`, from a live node down the pending
path: it ends at the node of the path, having made the nodes that were
missing, as long as the next prefixes of the counter are free. By induction on
the tokens: a round follows a child, or makes one (`Layout.grow`) and the
next prefixes stay free. -/
theorem addPatternLoop_spec (layout : Layout tree entries shape [target]) {path : Path} {address : Nat}
    (placed : shape.place path = some address) {tokens : List (List UInt8)}
    (toTarget : path ++ tokens.map (globOf tree.type) = target) (noNul : ∀ token ∈ tokens, 0 ∉ token)
    (room : tokens.length < 2 ^ 32)
    (fresh : ∀ i < tokens.length, ∀ other, shape.place other ≠ none →
      shape.hkeyPrefix other ≠ tree.nextHkeyPrefix + i.toUInt32) :
    ∃ tree' shape' ending made, tree.addPatternLoop address tokens = some (tree', some ending) ∧
      Layout tree' entries shape' [target] ∧ shape'.place target = some ending ∧ made ≤ tokens.length ∧
      Walked tree tree' shape shape' made := by
  induction tokens generalizing tree shape path address with
  | nil =>
      rw [List.map_nil, List.append_nil] at toTarget
      subst toTarget
      exact ⟨tree, shape, address, 0, Eq.refl _, layout, placed, Nat.zero_le _, Walked.rfl⟩
  | cons token rest ih =>
      obtain ⟨node, nodes, _⟩ := layout.nodeAt path address placed
      have restNoNul : ∀ other ∈ rest, 0 ∉ other := fun other inRest =>
        noNul other (List.mem_cons_of_mem token inRest)
      have restTarget : path ++ [globOf tree.type token] ++ rest.map (globOf tree.type) = target := by
        rw [← toTarget, List.map_cons, List.append_assoc, List.singleton_append]
      rw [QdParseTree.addPatternLoop, nodes]
      simp only [Option.bind_eq_bind, Option.bind_some]
      rw [layout.addChild_eq placed nodes (noNul token List.mem_cons_self)]
      simp only [Option.bind_some]
      cases child : shape.place (path ++ [globOf tree.type token]) with
      | some next =>
          obtain ⟨tree', shape', ending, made, loop, layout', placedEnd, bound, walked⟩ :=
            ih layout child restTarget restNoNul (by simp at room; omega)
              (fun i small => fresh i (by simp; omega))
          exact ⟨tree', shape', ending, made, loop, layout', placedEnd, by simp; omega, walked⟩
      | none =>
          -- the child is made with the counter's value, and the next ones stay free
          have grown := layout.grow placed nodes child
            ⟨target, List.mem_singleton_self _, restTarget ▸ List.prefix_append _ _⟩
            (fun other alive => by simpa using fresh 0 (by simp) other alive)
            (fun other isLit => token_of_globOf_eq_lit isLit ▸ noNul token List.mem_cons_self)
          have grownFresh : ∀ i < rest.length, ∀ other,
              (shape.grow path (globOf tree.type token) tree.nextNode tree.nextHkeyPrefix).place other ≠ none →
              (shape.grow path (globOf tree.type token) tree.nextNode tree.nextHkeyPrefix).hkeyPrefix other ≠
                tree.nextHkeyPrefix + 1 + i.toUInt32 := by
            intro i small other alive
            rw [add_one_add_toUInt32]
            by_cases isNew : other = path ++ [globOf tree.type token]
            · rw [isNew, Shape.hkeyPrefix_grow_self]
              exact (add_toUInt32_ne _ (Nat.succ_pos i) (by simp at room; omega)).symm
            · rw [Shape.place_grow_of_ne isNew] at alive
              rw [Shape.hkeyPrefix_grow_of_ne isNew]
              exact fresh (i + 1) (by simp; omega) other alive
          obtain ⟨tree', shape', ending, made, loop, layout', placedEnd, bound, walked⟩ :=
            ih grown Shape.place_grow_self restTarget restNoNul (by simp at room; omega) grownFresh
          exact ⟨tree', shape', ending, made + 1, loop, layout', placedEnd, by simp; omega,
            walked.grow child⟩

/-- Along nodes that are all there the loop makes nothing and leaves the tree
as it is. -/
theorem addPatternLoop_of_placed (layout : Layout tree entries shape pending) {path : Path} {address : Nat}
    (placed : shape.place path = some address) {tokens : List (List UInt8)}
    (noNul : ∀ token ∈ tokens, 0 ∉ token) {ending : Nat}
    (placedEnd : shape.place (path ++ tokens.map (globOf tree.type)) = some ending) :
    tree.addPatternLoop address tokens = some (tree, some ending) := by
  induction tokens generalizing path address with
  | nil =>
      rw [List.map_nil, List.append_nil, placed, Option.some.injEq] at placedEnd
      rw [placedEnd]
      rfl
  | cons token rest ih =>
      obtain ⟨node, nodes, _⟩ := layout.nodeAt path address placed
      have restEnd : shape.place (path ++ [globOf tree.type token] ++ rest.map (globOf tree.type)) = some ending := by
        rwa [List.append_assoc, List.singleton_append, ← List.map_cons]
      obtain ⟨child, child⟩ := Option.ne_none_iff_exists'.mp (layout.closed (by rw [restEnd]; simp))
      rw [QdParseTree.addPatternLoop, nodes]
      simp only [Option.bind_eq_bind, Option.bind_some]
      rw [layout.addChild_eq placed nodes (noNul token List.mem_cons_self), child]
      exact ih child (fun other inRest => noNul other (List.mem_cons_of_mem token inRest)) restEnd

/-- The node at the end of the pending path takes the pattern, which it did not
hold: the path is then stored. -/
theorem store {key : Path} (layout : Layout tree entries shape [key]) {address : Nat} {node : ParseNode ν}
    (placed : shape.place key = some address) (nodes : tree.nodes address = some node)
    (absent : key ∉ AssocList.keys entries) (notRoot : key ≠ []) {pattern : List UInt8}
    (isKey : key = patternGlobs tree.type pattern) (payload : Option ν) :
    Layout (tree.setNode address { node with pattern := some pattern, payload })
      (entries ++ [(key, (pattern, payload))]) shape [] where
  root := layout.root
  nodeAt path child childPlaced := by
    have absentLookup : AssocList.lookup entries key = none := AssocList.lookup_eq_none.mpr absent
    by_cases isKeyPath : path = key
    · subst isKeyPath
      rw [placed, Option.some.injEq] at childPlaced
      subst childPlaced
      have fits := layout.fits placed nodes
      refine ⟨{ node with pattern := some pattern, payload }, by simp [QdParseTree.setNode], ?_⟩
      exact { fits with pattern := by rw [AssocList.lookup_append_of_none absentLookup, if_pos (Eq.refl _)]; rfl }
    · obtain ⟨other, otherNodes, fits⟩ := layout.nodeAt path child childPlaced
      have differ : child ≠ address := fun same =>
        isKeyPath (layout.injective _ _ _ childPlaced (same ▸ placed))
      refine ⟨other, by simp [QdParseTree.setNode, Function.update_of_ne differ, otherNodes], fits.restore ?_⟩
      rw [AssocList.lookup_append_of_none absentLookup, if_neg isKeyPath]
  injective := layout.injective
  allocated := layout.allocated_setNode placed _
  justified path alive := by
    rw [AssocList.keys_append, List.append_nil]
    exact layout.justified path alive
  complete stored isStored path begins := by
    rw [AssocList.keys_append] at isStored
    rcases List.mem_append.mp isStored with old | new
    · exact layout.complete stored old path begins
    · -- the new key's node is live, and so is every node above it
      rw [List.mem_singleton] at new
      subst new
      obtain ⟨rest, joined⟩ := begins
      exact layout.closed (by rw [joined, placed]; simp)
  closed := layout.closed
  below := layout.below
  prefixes := layout.prefixes
  refines := layout.refines
  keyed := layout.keyed
  noNul := layout.noNul
  distinct := AssocList.nodup_append layout.distinct (AssocList.lookup_eq_none.mpr absent) _
  stored stored value found := by
    rw [AssocList.lookup_append_of_none (AssocList.lookup_eq_none.mpr absent)] at found
    split_ifs at found with isNew
    · rw [Option.some.injEq] at found
      subst found
      rw [isNew]
      exact isKey
    · exact layout.stored stored value found
  nonempty := by
    rw [AssocList.keys_append, List.mem_append, List.mem_singleton]
    exact fun isRoot => isRoot.elim layout.nonempty (fun same => notRoot same.symm)

/-- `parse_node_add_pattern` stores what `Stored.add` says and answers as it
does, as long as the prefixes the walk may need are free: it walks the normal
form down from the root, making the nodes it needs, and the node it ends at
takes the pattern unless it is the root or holds one. -/
theorem parseNodeAddPattern_spec (layout : Layout tree entries shape []) {pattern : List UInt8}
    (noNul : 0 ∉ pattern) (payload : Option ν) (room : (normalForm tree.type pattern).length < 2 ^ 32)
    (fresh : ∀ i < (normalForm tree.type pattern).length, ∀ other, shape.place other ≠ none →
      shape.hkeyPrefix other ≠ tree.nextHkeyPrefix + i.toUInt32) :
    ∃ tree' shape' made, tree.parseNodeAddPattern pattern payload =
        some ((Stored.add entries (normalForm tree.type pattern) (normalizePattern tree.type pattern, payload)).1,
          tree') ∧
      Layout tree' (Stored.add entries (normalForm tree.type pattern) (normalizePattern tree.type pattern, payload)).2
        shape' [] ∧
      made ≤ (normalForm tree.type pattern).length ∧ Walked tree tree' shape shape' made := by
  have tokensNoNul : ∀ token ∈ tokenIteratorInit tree.type (normalizePattern tree.type pattern), 0 ∉ token :=
    zero_not_mem_normal_token noNul
  have sameLength : (normalForm tree.type pattern).length =
      (tokenIteratorInit tree.type (normalizePattern tree.type pattern)).length := List.length_map _
  obtain ⟨tree', shape', ending, made, loop, walkedLayout, placedEnd, bound, walked⟩ :=
    (layout.widen (List.nil_subset [normalForm tree.type pattern])).addPatternLoop_spec layout.root
      (List.nil_append _) tokensNoNul (sameLength ▸ room) (sameLength ▸ fresh)
  -- the walk ends at the root exactly when the normal form is empty
  have atRoot : ending = tree'.root ↔ normalForm tree.type pattern = [] := by
    constructor
    · intro same
      exact walkedLayout.injective _ _ _ placedEnd (same ▸ walkedLayout.root)
    · intro empty
      rw [empty, walkedLayout.root, Option.some.injEq] at placedEnd
      exact placedEnd.symm
  unfold QdParseTree.parseNodeAddPattern
  simp only [loop, Option.bind_eq_bind, Option.bind_some]
  by_cases empty : normalForm tree.type pattern = []
  · refine ⟨tree', shape', made, ?_, ?_, sameLength ▸ bound, walked⟩
    · simp [Stored.add, empty, atRoot.mpr empty]
    · simp only [Stored.add, empty, if_true]
      exact walkedLayout.settle (by simp [empty])
  · obtain ⟨node, nodes, fits⟩ := walkedLayout.nodeAt _ ending placedEnd
    have notRoot : ending ≠ tree'.root := fun same => empty (atRoot.mp same)
    -- the node holds a pattern exactly when the normal form is stored
    have holds : node.pattern.isSome = decide (normalForm tree.type pattern ∈ AssocList.keys entries) := by
      have stored := fits.pattern
      by_cases isStored : normalForm tree.type pattern ∈ AssocList.keys entries
      · have found : AssocList.lookup entries (normalForm tree.type pattern) ≠ none := fun absent =>
          AssocList.lookup_eq_none.mp absent isStored
        rw [← stored] at found
        simpa [isStored, Option.isSome_iff_ne_none] using found
      · rw [AssocList.lookup_eq_none.mpr isStored, Option.map_eq_none_iff] at stored
        simp [stored, isStored]
    by_cases isStored : normalForm tree.type pattern ∈ AssocList.keys entries
    · refine ⟨tree', shape', made, ?_, ?_, sameLength ▸ bound, walked⟩
      · simp [Stored.add, empty, isStored, notRoot, nodes, holds]
      · simp only [Stored.add, empty, isStored, if_true, if_false]
        exact walkedLayout.settle (by simpa using .inr ⟨_, isStored, List.prefix_refl _⟩)
    · refine ⟨tree'.setNode ending { node with pattern := some (normalizePattern tree.type pattern), payload },
        shape', made, ?_, ?_, sameLength ▸ bound,
        ⟨walked.root, walked.type, walked.counter, walked.kept, walked.madePrefix⟩⟩
      · simp [Stored.add, empty, isStored, notRoot, nodes, holds]
      · simp only [Stored.add, empty, isStored, if_false]
        exact walkedLayout.store placedEnd nodes isStored empty (by rw [walked.type]; rfl) payload

/-- Adding a pattern whose normal form is stored answers `QD_ERROR_ALREADY_EXISTS`
and leaves the tree as it is: the walk finds every node there. -/
theorem parseNodeAddPattern_of_stored (layout : Layout tree entries shape pending) {pattern : List UInt8}
    (noNul : 0 ∉ pattern) (payload : Option ν) (isStored : normalForm tree.type pattern ∈ AssocList.keys entries) :
    tree.parseNodeAddPattern pattern payload = some (.alreadyExists, tree) := by
  obtain ⟨ending, placedEnd⟩ :=
    Option.ne_none_iff_exists'.mp (layout.complete _ isStored _ (List.prefix_refl _))
  have loop : tree.addPatternLoop tree.root (tokenIteratorInit tree.type (normalizePattern tree.type pattern)) =
      some (tree, some ending) :=
    layout.addPatternLoop_of_placed layout.root (zero_not_mem_normal_token noNul) (by rwa [List.nil_append])
  have notRoot : ending ≠ tree.root := fun same => by
    have isRoot := layout.injective _ _ _ placedEnd (same ▸ layout.root)
    exact layout.nonempty (isRoot ▸ isStored)
  obtain ⟨node, nodes, fits⟩ := layout.nodeAt _ ending placedEnd
  -- the node at the end holds the stored pattern
  have holds : node.pattern.isSome := by
    have found : AssocList.lookup entries (normalForm tree.type pattern) ≠ none := fun absent =>
      AssocList.lookup_eq_none.mp absent isStored
    rw [← fits.pattern] at found
    simpa [Option.isSome_iff_ne_none] using found
  unfold QdParseTree.parseNodeAddPattern
  simp [loop, notRoot, nodes, holds]

end Layout

end DispatchRouter.ParseTree
