/-
# Searching

`qd_parse_tree_search` under the layout. The search from the node of a path
takes the rest of the address: a literal node's parent matched its token, a
match-one node takes one token itself, and a match-glob node any number. It
gives the callback, in an order fixed by the tree, exactly the patterns stored
below the node whose items from there on match the rest (`Found`), some of
them more than once, whatever the callback does with them.

A match-glob node searches its children after it has taken each number of
tokens but all of them; so a stored `#` right below it, which could match the
empty rest, is never reached. The search is complete for stored normal forms
with no two `#` in a row (`Glob.ManyApart`).
-/

import DispatchRouter.ParseTree.Remove

namespace DispatchRouter.ParseTree

open Math Hash

variable {ν σ : Type}

/-! ### What a node finds -/

/-- What the node of a path takes of the address itself: a wildcard node its
item; a literal node nothing, its parent having matched the token. -/
def lead (path : Path) : Path :=
  match path.getLast? with
  | some .one => [.one]
  | some .many => [.many]
  | _ => []

@[simp] theorem lead_nil : lead [] = [] := rfl

@[simp] theorem lead_lit (path : Path) (token : List UInt8) : lead (path ++ [.lit token]) = [] := by
  simp [lead]

@[simp] theorem lead_one (path : Path) : lead (path ++ [.one]) = [.one] := by
  simp [lead]

@[simp] theorem lead_many (path : Path) : lead (path ++ [.many]) = [.many] := by
  simp [lead]

/-- A stored pattern at or below the node of `path`, with its payload, whose
items from below that node on match `value`. -/
def Matches (entries : Stored ν) (path : Path) (value : List (List UInt8)) (item : List UInt8 × Option ν) :
    Prop :=
  ∃ rest, AssocList.lookup entries (path ++ rest) = some item ∧ Glob.accepts rest value = true

/-- A stored pattern at or below the node of `path` whose items from that node
on match `value`: what the search from the node finds. -/
def Found (entries : Stored ν) (path : Path) (value : List (List UInt8)) (item : List UInt8 × Option ν) :
    Prop :=
  ∃ rest, AssocList.lookup entries (path ++ rest) = some item ∧ Glob.accepts (lead path ++ rest) value = true

/-- A stored pattern strictly below the node of `path` whose items from the
child on match `value`: what the children of the node find. -/
def FoundBelow (entries : Stored ν) (path : Path) (value : List (List UInt8)) (item : List UInt8 × Option ν) :
    Prop :=
  ∃ edge rest, AssocList.lookup entries (path ++ edge :: rest) = some item ∧
    Glob.accepts (edge :: rest) value = true

section Found

variable {entries : Stored ν} {path : Path} {value : List (List UInt8)} {item : List UInt8 × Option ν}

theorem found_lit {token : List UInt8} :
    Found entries (path ++ [.lit token]) value item ↔ Matches entries (path ++ [.lit token]) value item := by
  simp [Found, Matches]

theorem found_nil : Found entries [] value item ↔ Matches entries [] value item := by
  simp [Found, Matches]

theorem not_found_one_nil : ¬Found entries (path ++ [.one]) [] item := by
  simp [Found]

theorem found_one_cons {token : List UInt8} :
    Found entries (path ++ [.one]) (token :: value) item ↔ Matches entries (path ++ [.one]) value item := by
  simp [Found, Matches]

/-- The `#` of a match-glob node takes a beginning of the address. -/
theorem found_many :
    Found entries (path ++ [.many]) value item ↔
      ∃ suffix, suffix <:+ value ∧ Matches entries (path ++ [.many]) suffix item := by
  simp only [Found, Matches, lead_many, List.singleton_append, Glob.accepts_many_iff]
  constructor
  · rintro ⟨rest, stored, suffix, isSuffix, accepts⟩
    exact ⟨suffix, isSuffix, rest, stored, accepts⟩
  · rintro ⟨suffix, isSuffix, rest, stored, accepts⟩
    exact ⟨rest, stored, suffix, isSuffix, accepts⟩

/-- A node matches its own pattern when no token is left, and what its
children find. -/
theorem matches_iff :
    Matches entries path value item ↔
      (AssocList.lookup entries path = some item ∧ value = []) ∨ FoundBelow entries path value item := by
  constructor
  · rintro ⟨rest, stored, accepts⟩
    cases rest with
    | nil =>
        left
        rw [List.append_nil] at stored
        exact ⟨stored, List.isEmpty_iff.mp accepts⟩
    | cons edge rest => exact Or.inr ⟨edge, rest, stored, accepts⟩
  · rintro (⟨stored, rfl⟩ | ⟨edge, rest, stored, accepts⟩)
    · exact ⟨[], by rwa [List.append_nil], rfl⟩
    · exact ⟨edge :: rest, stored, accepts⟩

/-- With no token left, only a match-glob child can find anything. -/
theorem foundBelow_nil :
    FoundBelow entries path [] item ↔ Found entries (path ++ [.many]) [] item := by
  constructor
  · rintro ⟨edge, rest, stored, accepts⟩
    cases edge with
    | lit token => simp at accepts
    | one => simp at accepts
    | many => exact ⟨rest, by simpa using stored, by simpa using accepts⟩
  · rintro ⟨rest, stored, accepts⟩
    exact ⟨.many, rest, by simpa using stored, by simpa using accepts⟩

/-- With a token left, the literal child of that token, the match-one child
and the match-glob child find what the node's children find. -/
theorem foundBelow_cons {token : List UInt8} :
    FoundBelow entries path (token :: value) item ↔
      Found entries (path ++ [.lit token]) value item ∨ Found entries (path ++ [.one]) (token :: value) item ∨
        Found entries (path ++ [.many]) (token :: value) item := by
  constructor
  · rintro ⟨edge, rest, stored, accepts⟩
    cases edge with
    | lit other =>
        obtain ⟨rfl, accepts⟩ : other = token ∧ Glob.accepts rest value = true := by simpa using accepts
        exact Or.inl ⟨rest, by simpa using stored, by simpa using accepts⟩
    | one => exact Or.inr (Or.inl ⟨rest, by simpa using stored, by simpa using accepts⟩)
    | many => exact Or.inr (Or.inr ⟨rest, by simpa using stored, by simpa using accepts⟩)
  · rintro (⟨rest, stored, accepts⟩ | ⟨rest, stored, accepts⟩ | ⟨rest, stored, accepts⟩)
    · exact ⟨.lit token, rest, by simpa using stored, by simpa using accepts⟩
    · exact ⟨.one, rest, by simpa using stored, by simpa using accepts⟩
    · exact ⟨.many, rest, by simpa using stored, by simpa using accepts⟩

/-- Below a match-glob node no stored pattern matches the empty rest: its
first item would be a second `#` in a row. -/
theorem not_foundBelow_many_nil (apart : ∀ key ∈ AssocList.keys entries, Glob.ManyApart key) :
    ¬FoundBelow entries (path ++ [.many]) [] item := by
  rintro ⟨edge, rest, stored, accepts⟩
  have isKey : path ++ [.many] ++ edge :: rest ∈ AssocList.keys entries :=
    by_contra fun absent => by rw [AssocList.lookup_eq_none.mpr absent] at stored; cases stored
  have spelled : Glob.ManyApart (path ++ .many :: edge :: rest) := by simpa using apart _ isKey
  have notMany : edge ≠ .many := Glob.ManyApart.not_many_after spelled
  cases edge with
  | lit token => simp at accepts
  | one => simp at accepts
  | many => exact notMany rfl

end Found

/-! ### Searches as traversals -/

/-- The search `run`, whatever callback it is given, gives it exactly the
patterns and payloads that satisfy `P`. -/
def Searches (run : (σ → List UInt8 → Option ν → Bool × σ) → σ → Option (Bool × σ))
    (P : List UInt8 × Option ν → Prop) : Prop :=
  Traversal.Reaches (fun visit s => run (fun s pattern payload => visit s (pattern, payload)) s) P

section Searches

variable {run next : (σ → List UInt8 → Option ν → Bool × σ) → σ → Option (Bool × σ)}
  {P Q : List UInt8 × Option ν → Prop}

theorem searches_none : Searches (fun _ s => some (true, s)) (fun (_ : List UInt8 × Option ν) => False) (σ := σ) :=
  Traversal.reaches_none

theorem Searches.congr (searches : Searches run P) (same : ∀ item, P item ↔ Q item) : Searches run Q :=
  Traversal.Reaches.congr searches same

theorem Searches.of_eq (searches : Searches run P) (same : ∀ visit s, next visit s = run visit s) :
    Searches next P :=
  Traversal.Reaches.of_eq searches fun _ s => same _ s

theorem Searches.andThen (searches : Searches run P) (searchesNext : Searches next Q) :
    Searches (fun visit s => Traversal.andThen (run visit s) (next visit)) fun item => P item ∨ Q item :=
  Traversal.Reaches.andThen searches searchesNext

end Searches

/-- The search from each child of the node of `path` finds what is stored
below that child. -/
def SearchesChildren (entries : Stored ν) (shape : Shape) (path : Path)
    (find : (σ → List UInt8 → Option ν → Bool × σ) → Nat → List (List UInt8) → σ → Option (Bool × σ)) :
    Prop :=
  ∀ edge child value, shape.place (path ++ [edge]) = some child → (∀ token ∈ value, 0 ∉ token) →
    Searches (fun visit s => find visit child value s) (Found entries (path ++ [edge]) value)

/-- Every node below the node of `path` is fewer than `fuel` items down. -/
def Deep (shape : Shape) (fuel : Nat) (path : Path) : Prop :=
  ∀ rest, shape.place (path ++ rest) ≠ none → rest.length < fuel

theorem Deep.child {shape : Shape} {fuel : Nat} {path : Path} (deep : Deep shape (fuel + 1) path)
    (edge : Glob (List UInt8)) : Deep shape fuel (path ++ [edge]) := by
  intro rest alive
  have below := deep (edge :: rest) (by simpa using alive)
  simp only [List.length_cons] at below
  omega

namespace Layout

variable {tree : QdParseTree ν} {entries : Stored ν} {shape : Shape} {pending : List Path}

/-- Nothing is found below a node that is not there. -/
theorem not_found_of_dead (layout : Layout tree entries shape pending) {path : Path}
    (dead : shape.place path = none) {value : List (List UInt8)} {item : List UInt8 × Option ν} :
    ¬Found entries path value item := by
  rintro ⟨rest, stored, _⟩
  have isKey : path ++ rest ∈ AssocList.keys entries :=
    by_contra fun absent => by rw [AssocList.lookup_eq_none.mpr absent] at stored; cases stored
  exact layout.complete _ isKey path (List.prefix_append _ _) dead

/-- No pattern is stored under the empty path. -/
theorem lookup_nil (layout : Layout tree entries shape pending) : AssocList.lookup entries [] = none :=
  AssocList.lookup_eq_none.mpr layout.nonempty

/-- A node gives the callback its own pattern, once, when no token is left. -/
theorem visitIfDone_reachesOnce (layout : Layout tree entries shape pending) {path : Path} {address : Nat}
    {node : ParseNode ν} (placed : shape.place path = some address) (nodes : tree.nodes address = some node)
    (value : List (List UInt8)) :
    Traversal.ReachesOnce (σ := σ)
      (fun visit s => QdParseTree.visitIfDone (fun s pattern payload => visit s (pattern, payload)) node value s)
      fun item => AssocList.lookup entries path = some item ∧ value = [] := by
  have stored := (layout.fits placed nodes).pattern
  cases value with
  | cons token rest => exact Traversal.reachesOnce_none.congr (by simp)
  | nil =>
      cases holds : node.pattern with
      | none =>
          rw [holds, Option.map_none] at stored
          refine Traversal.reachesOnce_none.of_eq (fun visit s => by simp [QdParseTree.visitIfDone, holds]) |>.congr ?_
          simp [← stored]
      | some pattern =>
          rw [holds, Option.map_some] at stored
          refine (Traversal.ReachesOnce.of_traverses (fun visit s => ?_)
            (List.nodup_singleton (pattern, node.payload))).congr ?_
          · simp [QdParseTree.visitIfDone, holds]
          · simp [← stored, eq_comm]

theorem visitIfDone_searches (layout : Layout tree entries shape pending) {path : Path} {address : Nat}
    {node : ParseNode ν} (placed : shape.place path = some address) (nodes : tree.nodes address = some node)
    (value : List (List UInt8)) :
    Searches (σ := σ) (fun visit s => QdParseTree.visitIfDone visit node value s)
      fun item => AssocList.lookup entries path = some item ∧ value = [] :=
  (layout.visitIfDone_reachesOnce placed nodes value).reaches

section Children

variable {find : (σ → List UInt8 → Option ν → Bool × σ) → Nat → List (List UInt8) → σ → Option (Bool × σ)}
  {path : Path} {address : Nat} {node : ParseNode ν}

/-- A child, if the node has it, finds what is stored below it. -/
theorem child_searches (layout : Layout tree entries shape pending) (children : SearchesChildren entries shape path find)
    (edge : Glob (List UInt8)) (value : List (List UInt8)) (noNul : ∀ token ∈ value, 0 ∉ token) :
    Searches (fun visit s =>
        match shape.place (path ++ [edge]) with
        | some child => find visit child value s
        | none => some (true, s))
      (Found entries (path ++ [edge]) value) := by
  cases placed : shape.place (path ++ [edge]) with
  | some child => exact children edge child value placed noNul
  | none => exact searches_none.congr fun item => (iff_false_intro (layout.not_found_of_dead placed)).symm

/-- A node with no literal child has none for any token. -/
theorem dead_of_children_isEmpty (layout : Layout tree entries shape pending) (placed : shape.place path = some address)
    (nodes : tree.nodes address = some node) (empty : node.children.isEmpty = true) (token : List UInt8) :
    shape.place (path ++ [.lit token]) = none := by
  cases alive : shape.place (path ++ [.lit token]) with
  | none => rfl
  | some other =>
      have inChildren := ((layout.fits placed nodes).mem_children other).mpr ⟨token, alive⟩
      rw [List.isEmpty_iff.mp empty] at inChildren
      cases inChildren

/-- The literal child of the next token is found through the hash table; a node
with no literal child skips the lookup. -/
theorem literal_searches (layout : Layout tree entries shape pending) (placed : shape.place path = some address)
    (nodes : tree.nodes address = some node) (children : SearchesChildren entries shape path find)
    (token : List UInt8) (value : List (List UInt8)) (noNul : ∀ item ∈ token :: value, 0 ∉ item) :
    Searches (fun visit s =>
        if node.children.isEmpty then some (true, s)
        else
          match tree.parseNodeFindChild node token with
          | some child => find visit child value s
          | none => some (true, s))
      (Found entries (path ++ [.lit token]) value) := by
  have child := layout.child_searches children (.lit token) value fun item inValue =>
    noNul item (List.mem_cons_of_mem token inValue)
  rw [layout.findChild placed nodes (noNul token List.mem_cons_self)]
  cases empty : node.children.isEmpty with
  | false => exact child
  | true =>
      rw [layout.dead_of_children_isEmpty placed nodes empty token] at child
      exact child

/-- The children of a node find what is stored strictly below it. -/
theorem findChildren_searches (layout : Layout tree entries shape pending) (placed : shape.place path = some address)
    (nodes : tree.nodes address = some node) (children : SearchesChildren entries shape path find)
    (value : List (List UInt8)) (noNul : ∀ token ∈ value, 0 ∉ token) :
    Searches (fun visit s => tree.parseNodeFindChildren (find visit) node value s)
      (FoundBelow entries path value) := by
  have fits := layout.fits placed nodes
  have glob := layout.child_searches children .many value noNul
  unfold QdParseTree.parseNodeFindChildren
  rw [fits.match1Child, fits.matchGlobChild]
  cases value with
  | nil =>
      refine (searches_none.andThen glob).congr fun item => ?_
      rw [foundBelow_nil, false_or]
  | cons token rest =>
      have literal := layout.literal_searches placed nodes children token rest noNul
      have one := layout.child_searches children .one (token :: rest) noNul
      refine ((literal.andThen one).andThen glob).congr fun item => ?_
      rw [foundBelow_cons, or_assoc]

/-- A literal node, and a match-one node once it took its token, give their
own pattern when no token is left, and search their children. -/
theorem findToken_searches (layout : Layout tree entries shape pending) (placed : shape.place path = some address)
    (nodes : tree.nodes address = some node) (children : SearchesChildren entries shape path find)
    (value : List (List UInt8)) (noNul : ∀ token ∈ value, 0 ∉ token) :
    Searches (fun visit s => tree.parseNodeFindToken visit (find visit) node value s)
      (Matches entries path value) :=
  ((layout.visitIfDone_searches placed nodes value).andThen
    (layout.findChildren_searches placed nodes children value noNul)).congr fun _ => matches_iff.symm

/-- The loop of a match-glob node searches its children on every nonempty
suffix of the address. -/
theorem matchGlobLoop_searches (layout : Layout tree entries shape pending) (placed : shape.place path = some address)
    (nodes : tree.nodes address = some node) (children : SearchesChildren entries shape path find)
    (value : List (List UInt8)) (noNul : ∀ token ∈ value, 0 ∉ token) :
    Searches (fun visit s => tree.parseNodeMatchGlobLoop (find visit) node value s)
      fun item => ∃ suffix, suffix ≠ [] ∧ suffix <:+ value ∧ FoundBelow entries path suffix item := by
  induction value with
  | nil =>
      refine searches_none.congr fun item => ?_
      simp only [List.suffix_nil, false_iff]
      rintro ⟨suffix, nonempty, rfl, _⟩
      exact nonempty rfl
  | cons token rest ih =>
      have here := layout.findChildren_searches placed nodes children (token :: rest) noNul
      have later := ih fun item inRest => noNul item (List.mem_cons_of_mem token inRest)
      refine (here.andThen later).congr fun item => ?_
      constructor
      · rintro (found | ⟨suffix, nonempty, isSuffix, found⟩)
        · exact ⟨token :: rest, List.cons_ne_nil _ _, List.suffix_refl _, found⟩
        · exact ⟨suffix, nonempty, isSuffix.trans (List.suffix_cons token rest), found⟩
      · rintro ⟨suffix, nonempty, isSuffix, found⟩
        rcases List.suffix_cons_iff.mp isSuffix with rfl | isSuffix
        · exact Or.inl found
        · exact Or.inr ⟨suffix, nonempty, isSuffix, found⟩

/-- A match-glob node finds what its children find after its `#` took a
beginning of the address, and its own pattern last. -/
theorem matchGlob_searches (layout : Layout tree entries shape pending)
    (apart : ∀ key ∈ AssocList.keys entries, Glob.ManyApart key) {path : Path}
    (placed : shape.place (path ++ [.many]) = some address) (nodes : tree.nodes address = some node)
    (children : SearchesChildren entries shape (path ++ [.many]) find)
    (value : List (List UInt8)) (noNul : ∀ token ∈ value, 0 ∉ token) :
    Searches (fun visit s => tree.parseNodeMatchGlob visit (find visit) node value s)
      (Found entries (path ++ [.many]) value) := by
  have own := layout.visitIfDone_searches (σ := σ) placed nodes []
  refine ((layout.matchGlobLoop_searches placed nodes children value noNul).andThen own).congr fun item => ?_
  rw [found_many]
  constructor
  · rintro (⟨suffix, _, isSuffix, found⟩ | ⟨stored, -⟩)
    · exact ⟨suffix, isSuffix, matches_iff.mpr (Or.inr found)⟩
    · exact ⟨[], List.nil_suffix, matches_iff.mpr (Or.inl ⟨stored, rfl⟩)⟩
  · rintro ⟨suffix, isSuffix, matched⟩
    rcases matches_iff.mp matched with ⟨stored, -⟩ | found
    · exact Or.inr ⟨stored, rfl⟩
    · -- the empty suffix is left to the node's own pattern
      cases suffix with
      | nil => exact absurd found (not_foundBelow_many_nil apart)
      | cons token rest => exact Or.inl ⟨token :: rest, List.cons_ne_nil _ _, isSuffix, found⟩

end Children

/-- `parse_node_find` finds, from the node of `path`, exactly what is stored
below it and matches the address from there on, given fuel beyond the depth
below the node. The induction is on the fuel; the children's searches are the
hypothesis. -/
theorem find_searches (layout : Layout tree entries shape [])
    (apart : ∀ key ∈ AssocList.keys entries, Glob.ManyApart key) (fuel : Nat) :
    ∀ {path : Path} {address : Nat} {value : List (List UInt8)}, shape.place path = some address →
      Deep shape fuel path → (∀ token ∈ value, 0 ∉ token) →
      Searches (σ := σ) (fun visit s => tree.parseNodeFind visit fuel address value s) (Found entries path value) := by
  induction fuel with
  | zero =>
      intro path address value placed deep
      exact absurd (deep [] (by simp [placed])) (Nat.not_lt_zero _)
  | succ fuel ih =>
      intro path address value placed deep noNul
      obtain ⟨node, nodes, fits⟩ := layout.nodeAt path address placed
      have children : SearchesChildren entries shape path fun visit => tree.parseNodeFind visit fuel :=
        fun edge _ _ childPlaced childNoNul => ih childPlaced (deep.child edge) childNoNul
      -- one step of the search: the match on the node's type
      simp only [QdParseTree.parseNodeFind, nodes, Option.bind_eq_bind, Option.bind_some, fits.matchType]
      -- the node's type is that of the last item of its path
      rcases List.eq_nil_or_concat' path with rfl | ⟨path, edge, rfl⟩
      · refine (layout.findChildren_searches placed nodes children value noNul).congr fun item => ?_
        rw [found_nil, matches_iff, layout.lookup_nil]
        simp
      · rw [nodeType_append]
        cases edge with
        | lit token =>
            exact (layout.findToken_searches placed nodes children value noNul).congr fun _ => found_lit.symm
        | one =>
            cases value with
            | nil => exact searches_none.congr fun _ => (iff_false_intro not_found_one_nil).symm
            | cons token rest =>
                have found := layout.findToken_searches placed nodes children rest
                  fun item inRest => noNul item (List.mem_cons_of_mem token inRest)
                exact found.congr fun _ => found_one_cons.symm
        | many => exact layout.matchGlob_searches apart placed nodes children value noNul

/-- Fuel one beyond the number of nodes made reaches every node. -/
theorem deep_root (layout : Layout tree entries shape pending) : Deep shape (tree.nextNode + 1) [] := by
  intro rest alive
  have shorter : rest.length < tree.nextNode := layout.length_lt_nextNode (by simpa using alive)
  omega

/-- `qd_parse_tree_search` gives the callback, until it says to stop, the
stored patterns, with their payloads, whose normal form matches the tokens of
the address: the same list, in an order fixed by the tree, whatever the
callback. -/
theorem qdParseTreeSearch_spec (layout : Layout tree entries shape [])
    (apart : ∀ key ∈ AssocList.keys entries, Glob.ManyApart key) (view : List UInt8) :
    ∃ items : List (List UInt8 × Option ν),
      (∀ item, item ∈ items ↔ ∃ key, AssocList.lookup entries key = some item ∧
        Glob.accepts key (tokenIteratorInit tree.type (qdIteratorCopy view).octets) = true) ∧
      ∀ (visit : σ → List UInt8 → Option ν → Bool × σ) s,
        qdParseTreeSearch tree visit view s =
          some (Traversal.visitAll (fun s item => visit s item.1 item.2) s items).2 := by
  have noNul : ∀ token ∈ tokenIteratorInit tree.type (qdIteratorCopy view).octets, 0 ∉ token :=
    fun _ inTokens => zero_not_mem_token (qdIteratorCopy view).no_nul inTokens
  obtain ⟨items, traverses, members⟩ :=
    layout.find_searches (σ := σ) apart (tree.nextNode + 1) layout.root layout.deep_root noNul
  refine ⟨items, fun item => ?_, fun visit s => ?_⟩
  · rw [members, found_nil]
    simp [Matches]
  · unfold qdParseTreeSearch
    exact congrArg (Option.map (·.2)) (traverses (fun s item => visit s item.1 item.2) s)

/-- `get_first` keeps the payload of the first item and stops. -/
theorem visitAll_getFirst (items : List (List UInt8 × Option ν)) :
    (Traversal.visitAll (fun s item => getFirst s item.1 item.2) none items).2 = (items.head?).bind (·.2) := by
  cases items with
  | nil => rfl
  | cons item items => simp [Traversal.visitAll, getFirst]

/-- `qd_parse_tree_retrieve_match` gives the payload of a stored pattern whose
normal form matches the address, and nothing when none does; it says whether
that payload is null. -/
theorem qdParseTreeRetrieveMatch_spec (layout : Layout tree entries shape [])
    (apart : ∀ key ∈ AssocList.keys entries, Glob.ManyApart key) (view : List UInt8) :
    ∃ found : Option (List UInt8 × Option ν),
      qdParseTreeRetrieveMatch tree view = some ((found.bind (·.2)).isSome, found.bind (·.2)) ∧
      (∀ item, found = some item → ∃ key, AssocList.lookup entries key = some item ∧
        Glob.accepts key (tokenIteratorInit tree.type (qdIteratorCopy view).octets) = true) ∧
      (found = none → ∀ key item, AssocList.lookup entries key = some item →
        Glob.accepts key (tokenIteratorInit tree.type (qdIteratorCopy view).octets) = false) := by
  obtain ⟨items, members, searches⟩ := layout.qdParseTreeSearch_spec (σ := Option ν) apart view
  refine ⟨items.head?, ?_, fun item isHead => (members item).mp (List.mem_of_mem_head? isHead), ?_⟩
  · unfold qdParseTreeRetrieveMatch
    rw [searches, visitAll_getFirst]
    rfl
  · intro noHead key item stored
    rw [List.head?_eq_none_iff] at noHead
    have notFound := (members item).not.mp (by rw [noHead]; simp)
    simpa using fun accepts => notFound ⟨key, stored, accepts⟩

end Layout

end DispatchRouter.ParseTree
