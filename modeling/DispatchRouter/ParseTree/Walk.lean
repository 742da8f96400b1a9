/-
# Walking

`qd_parse_tree_walk` gives the callback every stored pattern exactly once: a
node's own pattern, then what its literal children hold, then its match-one
and its match-glob child. Distinct children hold distinct patterns, as a
stored pattern names its path, so nothing is given twice.
-/

import DispatchRouter.ParseTree.Search

namespace DispatchRouter.ParseTree

open Math Hash

variable {ν σ : Type}

/-- The walk `run`, whatever callback it is given, gives it each pattern and
payload that satisfies `P` once. -/
def Walks (run : (σ → List UInt8 → Option ν → Bool × σ) → σ → Option (Bool × σ))
    (P : List UInt8 × Option ν → Prop) : Prop :=
  Traversal.ReachesOnce (fun visit s => run (fun s pattern payload => visit s (pattern, payload)) s) P

/-- A stored pattern at or below the node of `path`, with its payload. -/
def StoredBelow (entries : Stored ν) (path : Path) (item : List UInt8 × Option ν) : Prop :=
  ∃ rest, AssocList.lookup entries (path ++ rest) = some item

/-- What is stored at or below a node is its own pattern or below one of its
children. -/
theorem storedBelow_iff {entries : Stored ν} {path : Path} {item : List UInt8 × Option ν} :
    StoredBelow entries path item ↔ AssocList.lookup entries path = some item ∨
      (∃ token, StoredBelow entries (path ++ [.lit token]) item) ∨
        StoredBelow entries (path ++ [.one]) item ∨ StoredBelow entries (path ++ [.many]) item := by
  constructor
  · rintro ⟨rest, stored⟩
    cases rest with
    | nil => exact Or.inl (by rwa [List.append_nil] at stored)
    | cons edge rest =>
        cases edge with
        | lit token => exact Or.inr (Or.inl ⟨token, rest, by simpa using stored⟩)
        | one => exact Or.inr (Or.inr (Or.inl ⟨rest, by simpa using stored⟩))
        | many => exact Or.inr (Or.inr (Or.inr ⟨rest, by simpa using stored⟩))
  · rintro (stored | ⟨token, rest, stored⟩ | ⟨rest, stored⟩ | ⟨rest, stored⟩)
    · exact ⟨[], by rwa [List.append_nil]⟩
    all_goals exact ⟨_ :: rest, by simpa using stored⟩

section Walks

variable {run next : (σ → List UInt8 → Option ν → Bool × σ) → σ → Option (Bool × σ)}
  {P Q : List UInt8 × Option ν → Prop}

theorem walks_none : Walks (fun _ s => some (true, s)) (fun (_ : List UInt8 × Option ν) => False) (σ := σ) :=
  Traversal.reachesOnce_none

theorem Walks.congr (walks : Walks run P) (same : ∀ item, P item ↔ Q item) : Walks run Q :=
  Traversal.ReachesOnce.congr walks same

theorem Walks.of_eq (walks : Walks run P) (same : ∀ visit s, next visit s = run visit s) : Walks next P :=
  Traversal.ReachesOnce.of_eq walks fun _ s => same _ s

theorem Walks.andThen (walks : Walks run P) (walksNext : Walks next Q) (disjoint : ∀ item, P item → ¬Q item) :
    Walks (fun visit s => Traversal.andThen (run visit s) (next visit)) fun item => P item ∨ Q item :=
  Traversal.ReachesOnce.andThen walks walksNext disjoint

end Walks

/-- The walk from each child of the node of `path` gives what is stored below
that child. -/
def WalksChildren (entries : Stored ν) (shape : Shape) (path : Path)
    (walk : (σ → List UInt8 → Option ν → Bool × σ) → Nat → σ → Option (Bool × σ)) : Prop :=
  ∀ edge child, shape.place (path ++ [edge]) = some child →
    Walks (fun visit s => walk visit child s) (StoredBelow entries (path ++ [edge]))

namespace Layout

variable {tree : QdParseTree ν} {entries : Stored ν} {shape : Shape} {pending : List Path}

/-- A stored pattern names its path. -/
theorem key_eq_of_lookup (layout : Layout tree entries shape pending) {key other : Path}
    {item : List UInt8 × Option ν} (stored : AssocList.lookup entries key = some item)
    (storedOther : AssocList.lookup entries other = some item) : key = other := by
  rw [layout.stored key item stored, layout.stored other item storedOther]

/-- Distinct children hold distinct patterns. -/
theorem edge_eq_of_storedBelow (layout : Layout tree entries shape pending) {path : Path}
    {edge other : Glob (List UInt8)} {item : List UInt8 × Option ν}
    (below : StoredBelow entries (path ++ [edge]) item) (belowOther : StoredBelow entries (path ++ [other]) item) :
    edge = other := by
  obtain ⟨rest, stored⟩ := below
  obtain ⟨otherRest, storedOther⟩ := belowOther
  have same := layout.key_eq_of_lookup stored storedOther
  simp only [List.append_assoc, List.singleton_append, List.append_cancel_left_eq, List.cons.injEq] at same
  exact same.1

/-- A node's own pattern is below none of its children. -/
theorem not_storedBelow_of_own (layout : Layout tree entries shape pending) {path : Path}
    {edge : Glob (List UInt8)} {item : List UInt8 × Option ν} (own : AssocList.lookup entries path = some item) :
    ¬StoredBelow entries (path ++ [edge]) item := by
  rintro ⟨rest, stored⟩
  have lengths := congrArg List.length (layout.key_eq_of_lookup own stored)
  simp only [List.length_append, List.length_singleton] at lengths
  omega

/-- Something is stored below a node only if the node is there. -/
theorem alive_of_storedBelow (layout : Layout tree entries shape pending) {path : Path}
    {item : List UInt8 × Option ν} (below : StoredBelow entries path item) : shape.place path ≠ none := by
  obtain ⟨rest, stored⟩ := below
  have isKey : path ++ rest ∈ AssocList.keys entries :=
    by_contra fun absent => by rw [AssocList.lookup_eq_none.mpr absent] at stored; cases stored
  exact layout.complete _ isKey path (List.prefix_append _ _)

/-- A node gives the callback its own pattern first. -/
theorem visitIfDone_walks (layout : Layout tree entries shape pending) {path : Path} {address : Nat}
    {node : ParseNode ν} (placed : shape.place path = some address) (nodes : tree.nodes address = some node) :
    Walks (σ := σ) (fun visit s => QdParseTree.visitIfDone visit node [] s)
      fun item => AssocList.lookup entries path = some item :=
  (layout.visitIfDone_reachesOnce placed nodes []).congr fun _ => and_iff_left rfl

section Children

variable {walk : (σ → List UInt8 → Option ν → Bool × σ) → Nat → σ → Option (Bool × σ)}
  {path : Path} {address : Nat} {node : ParseNode ν}

/-- A child, if the node has it, gives what is stored below it. -/
theorem child_walks (layout : Layout tree entries shape pending) (children : WalksChildren entries shape path walk)
    (edge : Glob (List UInt8)) :
    Walks (fun visit s =>
        match shape.place (path ++ [edge]) with
        | some child => walk visit child s
        | none => some (true, s))
      (StoredBelow entries (path ++ [edge])) := by
  cases placed : shape.place (path ++ [edge]) with
  | some child => exact children edge child placed
  | none => exact walks_none.congr fun _ => (iff_false_intro fun below => layout.alive_of_storedBelow below placed).symm

/-- The literal children, in the order of the node's list, give what is
stored below them, each once. -/
theorem literals_walk (layout : Layout tree entries shape pending) (placed : shape.place path = some address)
    (nodes : tree.nodes address = some node) (children : WalksChildren entries shape path walk) :
    Walks (fun visit s => Traversal.forEach (walk visit) node.children s)
      fun item => ∃ token, StoredBelow entries (path ++ [.lit token]) item := by
  have fits := layout.fits placed nodes
  -- the items below a literal child, named by the child's address
  let below : Nat → List UInt8 × Option ν → Prop := fun child item =>
    ∃ token, shape.place (path ++ [.lit token]) = some child ∧ StoredBelow entries (path ++ [.lit token]) item
  have each : ∀ child ∈ node.children,
      Traversal.ReachesOnce (fun visit s => walk (fun s pattern payload => visit s (pattern, payload)) child s)
        (below child) := by
    intro child inChildren
    obtain ⟨token, childPlaced⟩ := (fits.mem_children child).mp inChildren
    refine (children (.lit token) child childPlaced).congr fun item => ⟨fun stored => ⟨token, childPlaced, stored⟩, ?_⟩
    rintro ⟨other, otherPlaced, stored⟩
    have samePath := layout.injective _ _ _ otherPlaced childPlaced
    rw [← samePath]
    exact stored
  have disjoint : ∀ child ∈ node.children, ∀ other ∈ node.children, ∀ item,
      below child item → below other item → child = other := by
    rintro child - other - item ⟨token, childPlaced, stored⟩ ⟨otherToken, otherPlaced, otherStored⟩
    have sameEdge := layout.edge_eq_of_storedBelow stored otherStored
    rw [sameEdge] at childPlaced
    exact Option.some.inj (childPlaced.symm.trans otherPlaced)
  refine (Traversal.ReachesOnce.forEach fits.children_nodup each disjoint).congr fun item => ?_
  constructor
  · rintro ⟨child, -, token, -, stored⟩
    exact ⟨token, stored⟩
  · rintro ⟨token, stored⟩
    obtain ⟨child, childPlaced⟩ := Option.ne_none_iff_exists'.mp (layout.alive_of_storedBelow stored)
    exact ⟨child, (fits.mem_children child).mpr ⟨token, childPlaced⟩, token, childPlaced, stored⟩

end Children

/-- `parse_tree_walk` gives, from the node of `path`, everything stored at or
below it once, given fuel beyond the depth below the node. -/
theorem walk_walks (layout : Layout tree entries shape pending) (fuel : Nat) :
    ∀ {path : Path} {address : Nat}, shape.place path = some address → Deep shape fuel path →
      Walks (σ := σ) (fun visit s => tree.parseTreeWalk visit fuel address s) (StoredBelow entries path) := by
  induction fuel with
  | zero =>
      intro path address placed deep
      exact absurd (deep [] (by simp [placed])) (Nat.not_lt_zero _)
  | succ fuel ih =>
      intro path address placed deep
      obtain ⟨node, nodes, fits⟩ := layout.nodeAt path address placed
      have children : WalksChildren entries shape path fun visit => tree.parseTreeWalk visit fuel :=
        fun edge _ childPlaced => ih childPlaced (deep.child edge)
      have own := layout.visitIfDone_walks (σ := σ) placed nodes
      have literals := layout.literals_walk placed nodes children
      have one := layout.child_walks children .one
      have glob := layout.child_walks children .many
      have wildcards := one.andThen glob fun item below globBelow =>
        nomatch layout.edge_eq_of_storedBelow below globBelow
      have below := literals.andThen wildcards fun item ⟨token, literal⟩ wildcard => by
        rcases wildcard with oneBelow | globBelow
        · nomatch layout.edge_eq_of_storedBelow literal oneBelow
        · nomatch layout.edge_eq_of_storedBelow literal globBelow
      have all := own.andThen below fun item stored rest => by
        rcases rest with ⟨token, literal⟩ | oneBelow | globBelow
        · exact layout.not_storedBelow_of_own stored literal
        · exact layout.not_storedBelow_of_own stored oneBelow
        · exact layout.not_storedBelow_of_own stored globBelow
      refine (all.congr fun _ => storedBelow_iff.symm).of_eq fun visit s => ?_
      rewrite [QdParseTree.parseTreeWalk, nodes, Option.bind_eq_bind, Option.bind_some, fits.match1Child,
        fits.matchGlobChild]
      rfl

/-- `qd_parse_tree_walk` gives the callback, until it says to stop, every stored
pattern with its payload exactly once, in an order fixed by the tree. -/
theorem qdParseTreeWalk_spec (layout : Layout tree entries shape pending) :
    ∃ items : List (List UInt8 × Option ν), items.Perm (entries.map (·.2)) ∧
      ∀ (visit : σ → List UInt8 → Option ν → Bool × σ) s,
        qdParseTreeWalk tree visit s = some (Traversal.visitAll (fun s item => visit s item.1 item.2) s items) := by
  obtain ⟨items, traverses, nodup, members⟩ :=
    layout.walk_walks (σ := σ) (tree.nextNode + 1) layout.root layout.deep_root
  have named : ∀ entry ∈ entries, ∀ other ∈ entries, entry.2 = other.2 → entry.1 = other.1 :=
    fun entry inEntries other inOther sameValue => layout.key_eq_of_lookup
      ((AssocList.lookup_eq_some_iff layout.distinct).mpr inEntries)
      (by rw [sameValue]; exact (AssocList.lookup_eq_some_iff layout.distinct).mpr inOther)
  refine ⟨items, (List.perm_ext_iff_of_nodup nodup (AssocList.nodup_values layout.distinct named)).mpr
    fun item => ?_, fun visit s => traverses (fun s item => visit s item.1 item.2) s⟩
  rw [members]
  simp only [StoredBelow, List.nil_append, List.mem_map, AssocList.lookup_eq_some_iff layout.distinct]
  constructor
  · rintro ⟨key, stored⟩
    exact ⟨(key, item), stored, rfl⟩
  · rintro ⟨⟨key, value⟩, stored, rfl⟩
    exact ⟨key, stored⟩

end Layout

end DispatchRouter.ParseTree
