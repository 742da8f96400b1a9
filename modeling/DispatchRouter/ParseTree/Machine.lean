/-
# The tree as a finite map

A parse tree is used through `qd_parse_tree_add_pattern`, `_remove_pattern` and
`_get_pattern`. From a new tree, a run of these answers as a finite map from
normal forms to patterns and payloads does (`Stored.apply`), for as long as the
hash-key prefix counter has not come round: every node made takes the next
prefix, and the prefixes of live nodes must stay apart, as a node's children
are found under its prefix. An add makes at most one node per item of the
pattern's normal form; that is its cost, and a run whose costs fit in the
counter is a refinement of the map (`Mealy.Refinement`).

Every state such a run reaches keeps the layout of `Layout`; the facts below
about its nodes and its hash table follow from it.
-/

import DispatchRouter.ParseTree.Walk
import DispatchRouter.Math.Mealy

namespace DispatchRouter.ParseTree

open Math Hash
open Amqp (CString)

variable {ν : Type}

/-! ### Operations -/

/-- A call a user of the tree makes. -/
inductive Op (ν : Type) where
  | add (view : List UInt8) (payload : Option ν)
  | remove (view : List UInt8)
  | get (view : List UInt8)
  deriving Repr

/-- What a call answers. -/
inductive Reply (ν : Type) where
  | added (error : QdError)
  | removed (payload : Option ν)
  | got (found : Bool) (payload : Option ν)
  deriving DecidableEq, Repr

/-- A call on the tree: `qd_parse_tree_add_pattern`, `_remove_pattern` or
`_get_pattern`. -/
def QdParseTree.apply (tree : QdParseTree ν) : Op ν → Option (Reply ν × QdParseTree ν)
  | .add view payload => (qdParseTreeAddPattern tree view payload).map fun added => (.added added.1, added.2)
  | .remove view => (qdParseTreeRemovePattern tree view).map fun removed => (.removed removed.1, removed.2)
  | .get view => (qdParseTreeGetPattern tree view).map fun found => (.got found.1 found.2, tree)

/-- The same call on the map of normal forms of a tree of `type`. -/
def Stored.apply (type : ParseTreeType) (entries : Stored ν) : Op ν → Reply ν × Stored ν
  | .add view payload =>
      let added := Stored.add entries (normalForm type (qdIteratorCopy view).octets)
        (normalizePattern type (qdIteratorCopy view).octets, payload)
      (.added added.1, added.2)
  | .remove view =>
      let removed := Stored.remove entries (normalForm type (qdIteratorCopy view).octets)
      (.removed (removed.1.bind (·.2)), removed.2)
  | .get view =>
      let found := AssocList.lookup entries (normalForm type (qdIteratorCopy view).octets)
      (.got found.isSome (found.bind (·.2)), entries)

/-- The prefixes a call may take: one for each item of an added pattern's
normal form. -/
def Op.cost (type : ParseTreeType) : Op ν → Nat
  | .add view _ => (normalForm type (qdIteratorCopy view).octets).length
  | _ => 0

/-! ### The invariant of a run -/

/-- Every live node's prefix is below the counter. -/
def Shape.Below (shape : Shape) (counter : UInt32) : Prop :=
  ∀ path, shape.place path ≠ none → (shape.hkeyPrefix path).toNat < counter.toNat

/-- The tree holds `entries` laid out as `shape`, the counter above every live
prefix. -/
structure Holds (tree : QdParseTree ν) (entries : Stored ν) (shape : Shape) : Prop where
  layout : Layout tree entries shape []
  below : shape.Below tree.nextHkeyPrefix

/-- A tree of `type` holds `entries`, with room in its counter for `budget`
more prefixes. -/
structure Keeps (type : ParseTreeType) (budget : Nat) (tree : QdParseTree ν) (entries : Stored ν) : Prop where
  type_eq : tree.type = type
  room : tree.nextHkeyPrefix.toNat + budget < 2 ^ 32
  holds : ∃ shape, Holds tree entries shape

/-- The counter moved on by less than its room does not come round. -/
theorem toNat_add_toUInt32 (next : UInt32) (i : Nat) (small : next.toNat + i < 2 ^ 32) :
    (next + i.toUInt32).toNat = next.toNat + i := by
  simp only [UInt32.toNat_add, Nat.toUInt32_eq, UInt32.toNat_ofNat']
  omega

theorem holds_qdParseTreeNew (type : ParseTreeType) :
    Holds (qdParseTreeNew type : QdParseTree ν) [] Shape.initial where
  layout := layout_qdParseTreeNew type
  below _ _ := show (1 : UInt32).toNat < (2 : UInt32).toNat by decide

namespace Holds

variable {tree : QdParseTree ν} {entries : Stored ν} {shape : Shape}

/-- An add whose cost fits the counter's room does what `Stored.add` does,
and moves the counter on by at most its cost. -/
theorem add (holds : Holds tree entries shape) (view : List UInt8) (payload : Option ν)
    (room : tree.nextHkeyPrefix.toNat + (normalForm tree.type (qdIteratorCopy view).octets).length < 2 ^ 32) :
    ∃ tree' shape', qdParseTreeAddPattern tree view payload =
        some ((Stored.add entries (normalForm tree.type (qdIteratorCopy view).octets)
          (normalizePattern tree.type (qdIteratorCopy view).octets, payload)).1, tree') ∧
      Holds tree' (Stored.add entries (normalForm tree.type (qdIteratorCopy view).octets)
        (normalizePattern tree.type (qdIteratorCopy view).octets, payload)).2 shape' ∧
      tree'.type = tree.type ∧
      tree'.nextHkeyPrefix.toNat ≤ tree.nextHkeyPrefix.toNat + (normalForm tree.type (qdIteratorCopy view).octets).length := by
  -- the prefixes the add may take are above every live one
  have fresh : ∀ i < (normalForm tree.type (qdIteratorCopy view).octets).length, ∀ other,
      shape.place other ≠ none → shape.hkeyPrefix other ≠ tree.nextHkeyPrefix + i.toUInt32 := by
    intro i small other alive same
    have lower := holds.below other alive
    rw [same, toNat_add_toUInt32 _ _ (by omega)] at lower
    omega
  obtain ⟨tree', shape', made, added, layout', bound, walked⟩ :=
    holds.layout.parseNodeAddPattern_spec (qdIteratorCopy view).no_nul payload (by omega) fresh
  have counter : tree'.nextHkeyPrefix.toNat = tree.nextHkeyPrefix.toNat + made := by
    rw [walked.counter, toNat_add_toUInt32 _ _ (by omega)]
  refine ⟨tree', shape', added, ⟨layout', fun path alive => ?_⟩, walked.type, by omega⟩
  by_cases old : shape.place path = none
  · obtain ⟨i, small, isPrefix⟩ := walked.madePrefix path alive old
    rw [isPrefix, toNat_add_toUInt32 _ _ (by omega)]
    omega
  · rw [(walked.kept path old).2]
    have lower := holds.below path old
    omega

/-- A remove does what `Stored.remove` does and leaves the counter. -/
theorem remove (holds : Holds tree entries shape) (view : List UInt8) :
    ∃ tree' shape', qdParseTreeRemovePattern tree view =
        some ((Stored.remove entries (normalForm tree.type (qdIteratorCopy view).octets)).1.bind (·.2), tree') ∧
      Holds tree' (Stored.remove entries (normalForm tree.type (qdIteratorCopy view).octets)).2 shape' ∧
      tree'.type = tree.type ∧ tree'.nextHkeyPrefix = tree.nextHkeyPrefix := by
  obtain ⟨tree', shape', removed, layout', pruned⟩ := holds.layout.qdParseTreeRemovePattern_spec view
  refine ⟨tree', shape', removed, ⟨layout', fun path alive => ?_⟩, pruned.type, pruned.counter⟩
  obtain ⟨samePlace, samePrefix⟩ := pruned.kept path alive
  rw [samePrefix, pruned.counter]
  exact holds.below path (samePlace ▸ alive)

end Holds

/-- The tree refines the map while the counter has room: each call answers as
the map does and the invariant is kept with the call's cost spent. -/
theorem refinement (type : ParseTreeType) :
    Mealy.Refinement (QdParseTree.apply (ν := ν)) (Stored.apply type) (Op.cost type) (Keeps type) where
  step budget tree entries op keeps := by
    obtain ⟨isType, room, shape, holds⟩ := keeps
    subst isType
    cases op with
    | add view payload =>
        obtain ⟨tree', shape', added, holds', sameType, counter⟩ :=
          holds.add view payload (by simp only [Op.cost] at room; omega)
        refine ⟨tree', by simp [QdParseTree.apply, added, Stored.apply], sameType, ?_, shape', holds'⟩
        simp only [Op.cost] at room
        omega
    | remove view =>
        obtain ⟨tree', shape', removed, holds', sameType, counter⟩ := holds.remove view
        refine ⟨tree', by simp [QdParseTree.apply, removed, Stored.apply], sameType, ?_, shape', holds'⟩
        simp only [Op.cost] at room
        rw [counter]
        omega
    | get view =>
        refine ⟨tree, ?_, rfl, by simp only [Op.cost] at room; omega, shape, holds⟩
        simp [QdParseTree.apply, holds.layout.qdParseTreeGetPattern_spec view, Stored.apply]

/-- A run from a new tree whose costs fit the counter answers as the map does,
and ends in a tree that holds what the map holds. -/
theorem run_refines (type : ParseTreeType) (ops : List (Op ν)) (budget : 2 + (ops.map (Op.cost type)).sum < 2 ^ 32) :
    ∃ tree, Mealy.runPartial QdParseTree.apply (qdParseTreeNew type) ops =
        some ((Mealy.run (Stored.apply type) [] ops).1, tree) ∧
      Keeps type 0 tree (Mealy.run (Stored.apply type) [] ops).2 :=
  (refinement type).run ops ⟨rfl, by simpa [qdParseTreeNew, Nat.add_comm] using budget, Shape.initial,
    holds_qdParseTreeNew type⟩

/-! ### The map's entries come from the adds -/

/-- Every entry of the map a run builds was added by one of its calls. -/
theorem lookup_run {type : ParseTreeType} {entries : Stored ν} (ops : List (Op ν)) {key : Path}
    {value : List UInt8 × Option ν} (found : AssocList.lookup (Mealy.run (Stored.apply type) entries ops).2 key = some value) :
    AssocList.lookup entries key = some value ∨
      ∃ view payload, .add view payload ∈ ops ∧ key = normalForm type (qdIteratorCopy view).octets ∧
        value = (normalizePattern type (qdIteratorCopy view).octets, payload) := by
  induction ops generalizing entries with
  | nil => exact .inl found
  | cons op ops ih =>
      rw [Mealy.run_cons] at found
      rcases ih found with before | ⟨view, payload, isOp, rest⟩
      · -- the entry was there after the first call
        cases op with
        | add view payload =>
            simp only [Stored.apply, Stored.add] at before
            split_ifs at before with empty isKey
            · exact .inl before
            · exact .inl before
            · rw [AssocList.lookup_append_of_none (AssocList.lookup_eq_none.mpr isKey)] at before
              split_ifs at before with isNew
              · rw [Option.some.injEq] at before
                exact .inr ⟨view, payload, List.mem_cons_self, isNew, before.symm⟩
              · exact .inl before
        | remove view =>
            simp only [Stored.apply, Stored.remove, AssocList.lookup_erase] at before
            split_ifs at before
            exact .inl before
        | get view => exact .inl before
      · exact .inr ⟨view, payload, List.mem_cons_of_mem op isOp, rest⟩

/-! ### Trees built by adds -/

/-- An add keeps every key and stores its own unless it is empty. -/
theorem mem_keys_add {entries : Stored ν} {k key : Path} {value : List UInt8 × Option ν} :
    key ∈ AssocList.keys (Stored.add entries k value).2 ↔ key ∈ AssocList.keys entries ∨ key = k ∧ key ≠ [] := by
  unfold Stored.add
  split_ifs with empty present
  · simp [empty]
  · constructor
    · exact .inl
    · rintro (old | ⟨rfl, -⟩)
      · exact old
      · exact present
  · rw [AssocList.keys_append, List.mem_append, List.mem_singleton]
    exact or_congr_right ⟨fun same => ⟨same, same ▸ empty⟩, And.left⟩

/-- A run of adds keeps every key, and stores the normal form of each pattern
added that has a token. -/
theorem mem_keys_run_adds {type : ParseTreeType} (payload : Option ν) :
    ∀ (views : List (List UInt8)) (entries : Stored ν) (key : Path),
      key ∈ AssocList.keys (Mealy.run (Stored.apply type) entries (views.map fun view => .add view payload)).2 ↔
        key ∈ AssocList.keys entries ∨ ∃ view ∈ views, key = normalForm type (qdIteratorCopy view).octets ∧ key ≠ []
  | [], entries, key => by simp
  | view :: views, entries, key => by
      rw [List.map_cons, Mealy.run_cons, mem_keys_run_adds payload views]
      simp only [Stored.apply, mem_keys_add, List.mem_cons, exists_eq_or_imp, or_assoc]

/-- A run of adds from a new tree of a type other than MQTT, within the
counter's room, builds a tree that finds a value exactly when the normal form of
a pattern added has a token and matches the value's tokens: each payload added
is not null. -/
theorem retrieveMatchStr_run_adds {type : ParseTreeType} (notMqtt : type ≠ .mqtt) (views : List (List UInt8))
    (payload : ν) (budget : 2 + ((views.map fun view => Op.add view (some payload)).map (Op.cost type)).sum < 2 ^ 32) :
    ∃ tree, (Mealy.runPartial QdParseTree.apply (qdParseTreeNew type) (views.map fun view => .add view (some payload))).map
        (·.2) = some tree ∧
      ∀ value, qdParseTreeRetrieveMatchStr tree value = some (views.any fun view =>
        !(normalForm type (qdIteratorCopy view).octets).isEmpty &&
          Glob.accepts (normalForm type (qdIteratorCopy view).octets) (tokenIteratorInit type (qdIteratorCopy value).octets)) := by
  obtain ⟨tree, ran, isType, -, shape, holds⟩ := run_refines type (views.map fun view => Op.add view (some payload)) budget
  refine ⟨tree, by rw [ran]; rfl, fun value => ?_⟩
  subst isType
  -- the keys stored are the normal forms of the patterns with a token
  have stored : ∀ key, key ∈ AssocList.keys (Mealy.run (Stored.apply tree.type) [] (views.map fun view => .add view (some payload))).2 ↔
      ∃ view ∈ views, key = normalForm tree.type (qdIteratorCopy view).octets ∧ key ≠ [] := by
    intro key
    rw [mem_keys_run_adds]
    simp only [AssocList.keys, List.map_nil, List.not_mem_nil, false_or]
  have apart : ∀ key ∈ AssocList.keys (Mealy.run (Stored.apply tree.type) [] (views.map fun view => .add view (some payload))).2,
      Glob.ManyApart key := by
    intro key member
    obtain ⟨view, -, rfl, -⟩ := (stored key).mp member
    exact manyApart_normalizePattern notMqtt _
  obtain ⟨found, retrieved, someFound, noneFound⟩ := holds.layout.qdParseTreeRetrieveMatch_spec apart value
  have str : qdParseTreeRetrieveMatchStr tree value = (qdParseTreeRetrieveMatch tree value).map (·.1) := by
    simp only [qdParseTreeRetrieveMatchStr, qdParseTreeRetrieveMatch, Option.map_map]
    rfl
  rw [str, retrieved, Option.map_some]
  congr 1
  cases found with
  | some item =>
      -- the pattern found is stored under a key with a token, with the payload added
      obtain ⟨key, isStored, accepts⟩ := someFound item rfl
      have member : key ∈ AssocList.keys (Mealy.run (Stored.apply tree.type) [] (views.map fun view => .add view (some payload))).2 := by
        by_contra absent
        rw [AssocList.lookup_eq_none.mpr absent] at isStored
        cases isStored
      obtain ⟨view, inViews, isKey, notEmpty⟩ := (stored key).mp member
      have payloadIs : item.2 = some payload := by
        rcases lookup_run _ isStored with none | ⟨other, added, isOp, -, rfl⟩
        · cases none
        · obtain ⟨_, -, same⟩ := List.mem_map.mp isOp
          cases same
          rfl
      rw [Option.bind_some, payloadIs, Option.isSome_some, eq_comm, List.any_eq_true]
      exact ⟨view, inViews, by rw [← isKey]; simp [notEmpty, accepts]⟩
  | none =>
      -- no stored key matches, so no pattern with a token does
      rw [Option.bind_none, Option.isSome_none, eq_comm, List.any_eq_false]
      intro view inViews matched
      simp only [Bool.and_eq_true, Bool.not_eq_true', List.isEmpty_eq_false_iff] at matched
      obtain ⟨notEmpty, accepts⟩ := matched
      have member := (stored _).mpr ⟨view, inViews, rfl, notEmpty⟩
      obtain ⟨item, isStored⟩ := Option.ne_none_iff_exists'.mp (mt AssocList.lookup_eq_none.mp (not_not.mpr member))
      rw [noneFound rfl _ item isStored] at accepts
      cases accepts

/-! ### Nodes and keys of a tree that holds a map -/

namespace Layout

variable {tree : QdParseTree ν} {entries : Stored ν} {shape : Shape} {pending : List Path}

/-- With nothing pending, every node but the root holds a pattern or has a
child: a node is there only on the way to a stored pattern. -/
theorem pattern_or_child (layout : Layout tree entries shape []) {address : Nat} {node : ParseNode ν}
    (nodes : tree.nodes address = some node) (notRoot : address ≠ tree.root) :
    node.pattern.isSome ∨ node.childCount ≠ 0 := by
  obtain ⟨path, placed⟩ := layout.allocated address (by rw [nodes]; simp)
  have fits := layout.fits placed nodes
  rcases layout.justified path (by rw [placed]; simp) with root | ⟨key, isKey, rest, isPath⟩
  · rw [root, layout.root, Option.some.injEq] at placed
    exact absurd placed.symm notRoot
  · rw [List.append_nil] at isKey
    cases rest with
    | nil =>
        -- the node's own path is stored
        left
        rw [List.append_nil] at isPath
        subst isPath
        have found : AssocList.lookup entries path ≠ none := fun absent => AssocList.lookup_eq_none.mp absent isKey
        rw [← fits.pattern] at found
        simpa [Option.isSome_iff_ne_none] using found
    | cons edge rest =>
        -- a stored path goes on below it
        right
        have childAlive := layout.complete key isKey (path ++ [edge]) ⟨rest, by rw [← isPath]; simp⟩
        exact fun none => childAlive (fits.childCount_eq_zero.mp none edge)

/-- A node is a token node exactly when it is the node of a path ending in a
literal. -/
theorem token_iff (layout : Layout tree entries shape pending) (address : Nat) :
    (∃ node, tree.nodes address = some node ∧ node.matchType = .token) ↔
      ∃ path token, shape.place (path ++ [.lit token]) = some address := by
  constructor
  · rintro ⟨node, nodes, isToken⟩
    obtain ⟨path, placed⟩ := layout.allocated address (by rw [nodes]; simp)
    rw [(layout.fits placed nodes).matchType] at isToken
    rcases List.eq_nil_or_concat' path with rfl | ⟨path, edge, rfl⟩
    · cases isToken
    · rw [nodeType_append] at isToken
      cases edge with
      | lit token => exact ⟨path, token, placed⟩
      | one => cases isToken
      | many => cases isToken
  · rintro ⟨path, token, placed⟩
    obtain ⟨node, nodes, fits⟩ := layout.nodeAt _ address placed
    exact ⟨node, nodes, by rw [fits.matchType, nodeType_append]; rfl⟩

/-- The hash table finds a node under a key exactly when it is a token node
and the key is made of its parent's prefix and its token. -/
theorem retrieve_iff (layout : Layout tree entries shape pending) (key : CString) (address : Nat) :
    qdHashRetrieveStr tree.hash key = some address ↔
      ∃ node parent parentNode token, tree.nodes address = some node ∧ node.matchType = .token ∧
        node.token = some token ∧ node.parent = some parent ∧ tree.nodes parent = some parentNode ∧
        key = generateHkey parentNode.hkeyPrefix token := by
  rw [qdHashRetrieveStr_eq, layout.refines.values, layout.keyed]
  constructor
  · rintro ⟨path, token, placed, isKey⟩
    obtain ⟨node, nodes, fits⟩ := layout.nodeAt _ address placed
    obtain ⟨parent, parentPlaced⟩ := Option.ne_none_iff_exists'.mp (layout.closed (by rw [placed]; simp))
    obtain ⟨parentNode, parentNodes, parentFits⟩ := layout.nodeAt _ parent parentPlaced
    refine ⟨node, parent, parentNode, token, nodes, by rw [fits.matchType, nodeType_append]; rfl,
      by rw [fits.token, lastToken_append], by simp [fits.parent, parentPlaced], parentNodes, ?_⟩
    cases key
    simp only [Shape.key, ← parentFits.hkeyPrefix] at isKey
    simp [generateHkey, isKey]
  · rintro ⟨node, parent, parentNode, token, nodes, isToken, hasToken, hasParent, parentNodes, rfl⟩
    obtain ⟨path, other, placed⟩ := (layout.token_iff address).mp ⟨node, nodes, isToken⟩
    have fits := layout.fits placed nodes
    -- the node's token and parent are those of its path
    have sameToken : other = token := by
      rw [fits.token, lastToken_append] at hasToken
      exact Option.some.inj hasToken
    subst sameToken
    have parentPlaced : shape.place path = some parent := by
      rw [fits.parent] at hasParent
      simpa using hasParent
    refine ⟨path, other, placed, ?_⟩
    rw [Shape.key, ← (layout.fits parentPlaced parentNodes).hkeyPrefix]

/-- The hash table has one entry for each token node. -/
theorem size_hash (layout : Layout tree entries shape pending) :
    qdHashSize tree.hash =
      ((List.range tree.nextNode).filter fun address =>
        (tree.nodes address).any fun node => node.matchType == .token).length := by
  rw [qdHashSize, layout.refines.size, ← List.length_map (f := (·.2))]
  have distinct := layout.refines.distinct
  -- two keys of one node are one key
  have named : ∀ entry ∈ shape.map.entries, ∀ other ∈ shape.map.entries, entry.2 = other.2 → entry.1 = other.1 := by
    intro entry inEntries other inOther sameNode
    obtain ⟨path, token, placed, isKey⟩ :=
      (layout.keyed _ _).mp ((AssocList.lookup_eq_some_iff distinct).mpr inEntries)
    obtain ⟨otherPath, otherToken, otherPlaced, isOtherKey⟩ :=
      (layout.keyed _ _).mp ((AssocList.lookup_eq_some_iff distinct).mpr inOther)
    rw [← sameNode] at otherPlaced
    obtain ⟨samePath, sameToken⟩ := List.append_inj' (layout.injective _ _ _ placed otherPlaced) rfl
    rw [isKey, isOtherKey, samePath, Glob.lit.inj (List.singleton_inj.mp sameToken)]
  refine (List.Perm.length_eq ((List.perm_ext_iff_of_nodup (AssocList.nodup_values distinct named)
    ((List.nodup_range).filter _)).mpr fun address => ?_))
  simp only [List.mem_map, List.mem_filter, List.mem_range]
  constructor
  · rintro ⟨⟨key, _⟩, inEntries, rfl⟩
    obtain ⟨path, token, placed, -⟩ :=
      (layout.keyed _ _).mp ((AssocList.lookup_eq_some_iff distinct).mpr inEntries)
    obtain ⟨node, nodes, isToken⟩ := (layout.token_iff _).mpr ⟨path, token, placed⟩
    exact ⟨layout.below _ _ placed, by simp [nodes, isToken]⟩
  · rintro ⟨-, isToken⟩
    obtain ⟨node, nodes, nodeIsToken⟩ : ∃ node, tree.nodes address = some node ∧ node.matchType = .token := by
      cases nodes : tree.nodes address with
      | none => simp [nodes] at isToken
      | some node => exact ⟨node, rfl, by simpa [nodes] using isToken⟩
    obtain ⟨path, token, placed⟩ := (layout.token_iff _).mp ⟨node, nodes, nodeIsToken⟩
    exact ⟨(shape.key path token, address),
      (AssocList.lookup_eq_some_iff distinct).mp ((layout.keyed _ _).mpr ⟨path, token, placed, rfl⟩), rfl⟩

end Layout

/-! ### Searching and walking the tree a run builds -/

/-- Every key a run stores is a normal form: for a type other than MQTT its `#`
items are apart. -/
theorem manyApart_run {type : ParseTreeType} (notMqtt : type ≠ .mqtt) (ops : List (Op ν)) :
    ∀ key ∈ AssocList.keys (Mealy.run (Stored.apply type) [] ops).2, Glob.ManyApart key := by
  intro key member
  obtain ⟨value, found⟩ := Option.ne_none_iff_exists'.mp (mt AssocList.lookup_eq_none.mp (not_not.mpr member))
  rcases lookup_run ops found with none | ⟨view, payload, -, rfl, -⟩
  · cases none
  · exact manyApart_normalizePattern notMqtt _

variable {σ : Type}

/-- Over every run of adds, removes and gets from a new tree of a type other
than MQTT whose costs fit the counter, `qd_parse_tree_search` gives the callback,
until it says to stop, exactly the stored patterns whose normal form matches
the tokens of the address, in an order the tree fixes whatever the callback. -/
theorem search_finds_matching_patterns_over_runs {type : ParseTreeType} (notMqtt : type ≠ .mqtt)
    (ops : List (Op ν)) (budget : 2 + (ops.map (Op.cost type)).sum < 2 ^ 32) :
    ∃ tree, (Mealy.runPartial QdParseTree.apply (qdParseTreeNew type) ops).map (·.2) = some tree ∧
      ∀ view, ∃ items : List (List UInt8 × Option ν),
        (∀ item, item ∈ items ↔ ∃ key, AssocList.lookup (Mealy.run (Stored.apply type) [] ops).2 key = some item ∧
          Glob.accepts key (tokenIteratorInit type (qdIteratorCopy view).octets) = true) ∧
        ∀ (visit : σ → List UInt8 → Option ν → Bool × σ) s,
          qdParseTreeSearch tree visit view s = some (Traversal.visitAll (fun s item => visit s item.1 item.2) s items).2 := by
  obtain ⟨tree, ran, isType, -, shape, holds⟩ := run_refines type ops budget
  refine ⟨tree, by rw [ran]; rfl, fun view => ?_⟩
  subst isType
  exact holds.layout.qdParseTreeSearch_spec (manyApart_run notMqtt ops) view

/-- The patterns `a.b`, `a.*` and `a.#` added and `a.*` removed again. -/
theorem search_finds_matching_patterns_ab :
    ParseTreeType.address ≠ .mqtt ∧
      2 + (([.add [97, 46, 98] (some 1), .add [97, 46, 42] (some 2), .add [97, 46, 35] (some 3), .remove [97, 46, 42]] :
        List (Op Nat)).map (Op.cost .address)).sum < 2 ^ 32 ∧
      ∃ tree, (Mealy.runPartial QdParseTree.apply (qdParseTreeNew .address)
          [.add [97, 46, 98] (some 1), .add [97, 46, 42] (some 2), .add [97, 46, 35] (some 3), .remove [97, 46, 42]]).map
          (·.2) = some tree ∧
        ∀ view, ∃ items : List (List UInt8 × Option Nat),
          (∀ item, item ∈ items ↔ ∃ key, AssocList.lookup (Mealy.run (Stored.apply .address) []
              [.add [97, 46, 98] (some 1), .add [97, 46, 42] (some 2), .add [97, 46, 35] (some 3),
                .remove [97, 46, 42]]).2 key = some item ∧
            Glob.accepts key (tokenIteratorInit .address (qdIteratorCopy view).octets) = true) ∧
          ∀ (visit : Nat → List UInt8 → Option Nat → Bool × Nat) s,
            qdParseTreeSearch tree visit view s = some (Traversal.visitAll (fun s item => visit s item.1 item.2) s items).2 :=
  ⟨by decide, by decide, search_finds_matching_patterns_over_runs (by decide) _ (by decide)⟩

/-- Over every run of adds, removes and gets from a new tree whose costs fit the
counter, `qd_parse_tree_walk` gives the callback, until it says to stop, every
stored pattern with its payload exactly once, in an order the tree fixes. -/
theorem walk_visits_stored_patterns_over_runs (type : ParseTreeType) (ops : List (Op ν))
    (budget : 2 + (ops.map (Op.cost type)).sum < 2 ^ 32) :
    ∃ tree, (Mealy.runPartial QdParseTree.apply (qdParseTreeNew type) ops).map (·.2) = some tree ∧
      ∃ items : List (List UInt8 × Option ν), items.Perm ((Mealy.run (Stored.apply type) [] ops).2.map (·.2)) ∧
        ∀ (visit : σ → List UInt8 → Option ν → Bool × σ) s,
          qdParseTreeWalk tree visit s = some (Traversal.visitAll (fun s item => visit s item.1 item.2) s items) := by
  obtain ⟨tree, ran, -, -, shape, holds⟩ := run_refines type ops budget
  exact ⟨tree, by rw [ran]; rfl, holds.layout.qdParseTreeWalk_spec⟩

/-- The MQTT patterns `a/+` and `a/#` added, and `b` looked up. -/
theorem walk_visits_stored_patterns_mqtt :
    2 + (([.add [97, 47, 43] (some 1), .add [97, 47, 35] (some 2), .get [98]] : List (Op Nat)).map
        (Op.cost .mqtt)).sum < 2 ^ 32 ∧
      ∃ tree, (Mealy.runPartial QdParseTree.apply (qdParseTreeNew .mqtt)
          [.add [97, 47, 43] (some 1), .add [97, 47, 35] (some 2), .get [98]]).map (·.2) = some tree ∧
        ∃ items : List (List UInt8 × Option Nat), items.Perm ((Mealy.run (Stored.apply .mqtt) []
            [.add [97, 47, 43] (some 1), .add [97, 47, 35] (some 2), .get [98]]).2.map (·.2)) ∧
          ∀ (visit : Nat → List UInt8 → Option Nat → Bool × Nat) s,
            qdParseTreeWalk tree visit s = some (Traversal.visitAll (fun s item => visit s item.1 item.2) s items) :=
  ⟨by decide, walk_visits_stored_patterns_over_runs .mqtt _ (by decide)⟩

/-- Every run of adds, removes and gets from a new tree whose costs fit the
counter answers as the finite map of normal forms does: an add of a stored
normal form is refused as already there, a get and a remove find what the map
holds under the normal form, and a remove takes only that entry out. -/
theorem parse_tree_answers_as_finite_map (type : ParseTreeType) (ops : List (Op ν))
    (budget : 2 + (ops.map (Op.cost type)).sum < 2 ^ 32) :
    (Mealy.runPartial QdParseTree.apply (qdParseTreeNew type) ops).map (·.1) = some (Mealy.run (Stored.apply type) [] ops).1 := by
  obtain ⟨tree, ran, -⟩ := run_refines type ops budget
  rw [ran]
  rfl

/-- `a.b` added twice, looked up and removed. -/
theorem parse_tree_answers_as_finite_map_ab :
    2 + (([.add [97, 46, 98] (some 1), .add [97, 46, 98] (some 2), .get [97, 46, 98], .remove [97, 46, 98]] :
        List (Op Nat)).map (Op.cost .address)).sum < 2 ^ 32 ∧
      (Mealy.runPartial QdParseTree.apply (qdParseTreeNew .address)
          [.add [97, 46, 98] (some 1), .add [97, 46, 98] (some 2), .get [97, 46, 98], .remove [97, 46, 98]]).map (·.1) =
        some (Mealy.run (Stored.apply .address) []
          [.add [97, 46, 98] (some 1), .add [97, 46, 98] (some 2), .get [97, 46, 98], .remove [97, 46, 98]]).1 :=
  ⟨by decide, parse_tree_answers_as_finite_map .address _ (by decide)⟩

end DispatchRouter.ParseTree
