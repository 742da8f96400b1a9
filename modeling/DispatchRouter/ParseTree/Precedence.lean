/-
# Which match the search gives first

`parse_node_find_children` searches, after a node's own pattern, its literal
child for the next token, then its match-one child, then its match-glob child.
A node reached along literal and match-one items only is searched once, so two
stored patterns that share such a beginning and part there are given in that
order: one that ends there or goes on with a literal before one that goes on
with `*` or `#`, and one that goes on with `*` before one that goes on with
`#`. A pattern of literals only that spells the address is then the first
match, the one `qd_parse_tree_retrieve_match` keeps.

Below a `#` no such order holds: the match-glob node searches its children
once for each number of tokens it takes, and a pattern it gives for a short
take comes before one it gives for a longer take.
-/

import DispatchRouter.ParseTree.Machine

namespace DispatchRouter.ParseTree

open Math Hash

variable {ν σ : Type}

/-! ### Where two patterns part -/

/-- Where the search from a node goes with the rest of a normal form: the end
(the node's own pattern) and a literal first, then `*`, then `#`. -/
def searchRank : Path → Nat
  | [] => 0
  | .lit _ :: _ => 0
  | .one :: _ => 1
  | .many :: _ => 2

theorem searchRank_le (path : Path) : searchRank path ≤ 2 := by
  rcases path with _ | ⟨_ | _ | _, _⟩ <;> simp [searchRank]

/-- Two patterns stored below the node of `path` share a beginning `shared`
with no `#` and then part, the first where the search goes first; both match
`value` after `lead`, what the node takes itself. -/
def Parting (entries : Stored ν) (path lead : Path) (value : List (List UInt8)) (P Q : List UInt8 × Option ν) :
    Prop :=
  ∃ shared p q, (∀ edge ∈ shared, edge ≠ .many) ∧ searchRank p < searchRank q ∧
    AssocList.lookup entries (path ++ shared ++ p) = some P ∧
    AssocList.lookup entries (path ++ shared ++ q) = some Q ∧
    Glob.accepts (lead ++ shared ++ p) value = true ∧ Glob.accepts (lead ++ shared ++ q) value = true

section Parting

variable {entries : Stored ν} {path : Path} {value : List (List UInt8)} {P Q : List UInt8 × Option ν}

theorem parting_one_cons {token : List UInt8} :
    Parting entries path [.one] (token :: value) P Q ↔ Parting entries path [] value P Q := by
  simp [Parting]

theorem not_parting_one_nil : ¬Parting entries path [.one] [] P Q := by
  simp [Parting]

/-- The first of two parting patterns is found from their node. -/
theorem Parting.found (parting : Parting entries path (lead path) value P Q) : Found entries path value P := by
  obtain ⟨shared, p, -, -, -, storedP, -, acceptsP, -⟩ := parting
  exact ⟨shared ++ p, by rwa [← List.append_assoc], by rwa [← List.append_assoc]⟩

/-- With no token left, two patterns part only where the first ends, at the
node itself. -/
theorem Parting.own_of_nil (parting : Parting entries path [] [] P Q) :
    AssocList.lookup entries path = some P := by
  obtain ⟨shared, p, q, noGlob, lower, storedP, -, acceptsP, -⟩ := parting
  have bound := searchRank_le q
  rcases shared with _ | ⟨edge, shared⟩
  · rcases p with _ | ⟨_ | _ | _, p⟩
    · simpa using storedP
    · simp at acceptsP
    · simp at acceptsP
    · change 2 < searchRank q at lower
      omega
  · cases edge with
    | lit token => simp at acceptsP
    | one => simp at acceptsP
    | many => exact absurd rfl (noGlob .many List.mem_cons_self)

end Parting

theorem Found.storedBelow {entries : Stored ν} {path : Path} {value : List (List UInt8)}
    {item : List UInt8 × Option ν} (found : Found entries path value item) : StoredBelow entries path item := by
  obtain ⟨rest, stored, -⟩ := found
  exact ⟨rest, stored⟩

/-! ### Searches in order -/

/-- The search `run`, whatever callback it is given, gives it exactly the
patterns and payloads that satisfy `P`, of any two that `R` relates the first
before the second. -/
def SearchesInOrder (run : (σ → List UInt8 → Option ν → Bool × σ) → σ → Option (Bool × σ))
    (P : List UInt8 × Option ν → Prop) (R : List UInt8 × Option ν → List UInt8 × Option ν → Prop) : Prop :=
  Traversal.ReachesInOrder (fun visit s => run (fun s pattern payload => visit s (pattern, payload)) s) P R

section SearchesInOrder

variable {run next : (σ → List UInt8 → Option ν → Bool × σ) → σ → Option (Bool × σ)}
  {P Q : List UInt8 × Option ν → Prop} {R S : List UInt8 × Option ν → List UInt8 × Option ν → Prop}

theorem Searches.inOrder (searches : Searches run P) : SearchesInOrder run P fun _ _ => False :=
  Traversal.Reaches.inOrder searches

theorem SearchesInOrder.congr (searches : SearchesInOrder run P R) (same : ∀ item, P item ↔ Q item)
    (fewer : ∀ a b, S a b → R a b) : SearchesInOrder run Q S :=
  Traversal.ReachesInOrder.congr searches same fewer

theorem SearchesInOrder.andThen (searches : SearchesInOrder run P R) (searchesNext : SearchesInOrder next Q S) :
    SearchesInOrder (fun visit s => Traversal.andThen (run visit s) (next visit)) (fun item => P item ∨ Q item)
      fun a b => R a b ∨ (S a b ∨ P a) ∧ ¬P b :=
  Traversal.ReachesInOrder.andThen searches searchesNext

end SearchesInOrder

/-- The search from each literal and match-one child of the node of `path`
gives what it finds with parting patterns in order. -/
def OrdersChildren (entries : Stored ν) (shape : Shape) (path : Path)
    (find : (σ → List UInt8 → Option ν → Bool × σ) → Nat → List (List UInt8) → σ → Option (Bool × σ)) :
    Prop :=
  ∀ edge child value, edge ≠ .many → shape.place (path ++ [edge]) = some child → (∀ token ∈ value, 0 ∉ token) →
    SearchesInOrder (fun visit s => find visit child value s) (Found entries (path ++ [edge]) value)
      (Parting entries (path ++ [edge]) (lead (path ++ [edge])) value)

namespace Layout

variable {tree : QdParseTree ν} {entries : Stored ν} {shape : Shape} {pending : List Path}

/-- A pattern stored under one child of a node is found under no other. -/
theorem not_found_of_edge (layout : Layout tree entries shape pending) {path rest : Path}
    {edge other : Glob (List UInt8)} {value : List (List UInt8)} {item : List UInt8 × Option ν}
    (stored : AssocList.lookup entries (path ++ edge :: rest) = some item) (differ : edge ≠ other) :
    ¬Found entries (path ++ [other]) value item :=
  fun found => differ (layout.edge_eq_of_storedBelow ⟨rest, by simpa using stored⟩ found.storedBelow)

/-- The second of two parting patterns is not the node's own. -/
theorem not_own_of_parting (layout : Layout tree entries shape pending) {path lead : Path}
    {value : List (List UInt8)} {P Q : List UInt8 × Option ν} (parting : Parting entries path lead value P Q) :
    AssocList.lookup entries path ≠ some Q := by
  obtain ⟨shared, p, q, -, lower, -, storedQ, -, -⟩ := parting
  intro own
  have lengths := congrArg List.length (layout.key_eq_of_lookup storedQ own)
  simp only [List.length_append] at lengths
  have noRest : q = [] := List.eq_nil_of_length_eq_zero (by omega)
  rw [noRest] at lower
  exact Nat.not_lt_zero _ lower

/-- The first of two parting patterns is the node's own only when no token is
left. -/
theorem nil_of_parting_own (layout : Layout tree entries shape pending) {path : Path} {value : List (List UInt8)}
    {P Q : List UInt8 × Option ν} (parting : Parting entries path [] value P Q)
    (own : AssocList.lookup entries path = some P) : value = [] := by
  obtain ⟨shared, p, -, -, -, storedP, -, acceptsP, -⟩ := parting
  have lengths := congrArg List.length (layout.key_eq_of_lookup storedP own)
  simp only [List.length_append] at lengths
  have noRest : shared ++ p = [] := List.eq_nil_of_length_eq_zero (by simp only [List.length_append]; omega)
  rw [List.nil_append, noRest] at acceptsP
  cases value with
  | nil => rfl
  | cons token rest => simp at acceptsP

section Children

variable {find : (σ → List UInt8 → Option ν → Bool × σ) → Nat → List (List UInt8) → σ → Option (Bool × σ)}
  {path : Path} {address : Nat} {node : ParseNode ν}

/-- A literal or match-one child, if the node has it, gives parting patterns in
order. -/
theorem child_inOrder (layout : Layout tree entries shape pending) (ordered : OrdersChildren entries shape path find)
    {edge : Glob (List UInt8)} (notGlob : edge ≠ .many) (value : List (List UInt8)) (noNul : ∀ token ∈ value, 0 ∉ token) :
    SearchesInOrder (fun visit s =>
        match shape.place (path ++ [edge]) with
        | some child => find visit child value s
        | none => some (true, s))
      (Found entries (path ++ [edge]) value) (Parting entries (path ++ [edge]) (lead (path ++ [edge])) value) := by
  cases placed : shape.place (path ++ [edge]) with
  | some child => exact ordered edge child value notGlob placed noNul
  | none =>
      -- nothing is stored below a node that is not there
      have nothing : ∀ item, ¬Found entries (path ++ [edge]) value item := fun _ => layout.not_found_of_dead placed
      exact searches_none.inOrder.congr (fun item => (iff_false_intro (nothing item)).symm)
        fun P _ parting => nothing P parting.found

theorem literal_inOrder (layout : Layout tree entries shape pending) (placed : shape.place path = some address)
    (nodes : tree.nodes address = some node) (ordered : OrdersChildren entries shape path find)
    (token : List UInt8) (value : List (List UInt8)) (noNul : ∀ item ∈ token :: value, 0 ∉ item) :
    SearchesInOrder (fun visit s =>
        if node.children.isEmpty then some (true, s)
        else
          match tree.parseNodeFindChild node token with
          | some child => find visit child value s
          | none => some (true, s))
      (Found entries (path ++ [.lit token]) value) (Parting entries (path ++ [.lit token]) [] value) := by
  have child := layout.child_inOrder ordered (by simp : (Glob.lit token : Glob (List UInt8)) ≠ .many) value fun item inValue =>
    noNul item (List.mem_cons_of_mem token inValue)
  rw [lead_lit] at child
  rw [layout.findChild placed nodes (noNul token List.mem_cons_self)]
  cases empty : node.children.isEmpty with
  | false => exact child
  | true =>
      rw [layout.dead_of_children_isEmpty placed nodes empty token] at child
      exact child

/-- The children of a node give what is stored strictly below it, and two
patterns that part below the node in order: the block of the literal child
comes before that of the match-one child, and both before the match-glob
child's. -/
theorem findChildren_inOrder (layout : Layout tree entries shape pending) (placed : shape.place path = some address)
    (nodes : tree.nodes address = some node) (children : SearchesChildren entries shape path find)
    (ordered : OrdersChildren entries shape path find) (value : List (List UInt8))
    (noNul : ∀ token ∈ value, 0 ∉ token) :
    SearchesInOrder (fun visit s => tree.parseNodeFindChildren (find visit) node value s)
      (FoundBelow entries path value)
      fun P Q => Parting entries path [] value P Q ∧ AssocList.lookup entries path ≠ some P := by
  have fits := layout.fits placed nodes
  have glob := (layout.child_searches children .many value noNul).inOrder
  unfold QdParseTree.parseNodeFindChildren
  rw [fits.match1Child, fits.matchGlobChild]
  cases value with
  | nil =>
      refine (searches_none.inOrder.andThen glob).congr (fun item => by rw [foundBelow_nil, false_or]) ?_
      rintro P Q ⟨parting, notOwn⟩
      exact absurd parting.own_of_nil notOwn
  | cons token rest =>
      have literal := layout.literal_inOrder placed nodes ordered token rest noNul
      have one := layout.child_inOrder ordered (by simp : (Glob.one : Glob (List UInt8)) ≠ .many) (token :: rest) noNul
      rw [lead_one] at one
      refine ((literal.andThen one).andThen glob).congr (fun item => by rw [foundBelow_cons, or_assoc]) ?_
      rintro P Q ⟨⟨shared, p, q, noGlob, lower, storedP, storedQ, acceptsP, acceptsQ⟩, notOwn⟩
      rcases shared with _ | ⟨edge, shared⟩
      · -- the two part right below the node: by the blocks their first items lead to
        rcases p with _ | ⟨pEdge, p⟩
        · exact absurd (by simpa using storedP) notOwn
        rcases q with _ | ⟨qEdge, q⟩
        · exact absurd lower (Nat.not_lt_zero _)
        simp only [List.append_nil, List.nil_append] at storedP storedQ acceptsP
        have notLitQ : ¬Found entries (path ++ [.lit token]) rest Q := by
          refine layout.not_found_of_edge storedQ fun isLit => ?_
          rw [isLit] at lower
          exact Nat.not_lt_zero _ lower
        cases pEdge with
        | lit other =>
            obtain ⟨rfl, acceptsRest⟩ : other = token ∧ Glob.accepts p rest = true := by simpa using acceptsP
            exact Or.inl (Or.inr ⟨Or.inr ⟨p, by simpa using storedP, by simpa using acceptsRest⟩, notLitQ⟩)
        | one =>
            have notOneQ : ¬Found entries (path ++ [.one]) (token :: rest) Q := by
              refine layout.not_found_of_edge storedQ fun isOne => ?_
              rw [isOne] at lower
              exact Nat.lt_irrefl _ lower
            exact Or.inr ⟨Or.inr (Or.inr ⟨p, by simpa using storedP, by simpa using acceptsP⟩),
              not_or.mpr ⟨notLitQ, notOneQ⟩⟩
        | many =>
            have bound := searchRank_le (qEdge :: q)
            change 2 < searchRank (qEdge :: q) at lower
            omega
      · -- the two share the child of their first item, which orders them
        have restNoGlob : ∀ item ∈ shared, item ≠ .many := fun item inShared =>
          noGlob item (List.mem_cons_of_mem edge inShared)
        cases edge with
        | lit other =>
            obtain ⟨rfl, acceptsRest⟩ : other = token ∧ Glob.accepts (shared ++ p) rest = true := by
              simpa using acceptsP
            exact Or.inl (Or.inl ⟨shared, p, q, restNoGlob, lower, by simpa using storedP, by simpa using storedQ,
              by simpa using acceptsRest, by simpa using acceptsQ⟩)
        | one =>
            have notLitQ : ¬Found entries (path ++ [.lit token]) rest Q :=
              layout.not_found_of_edge (by simpa using storedQ) (by simp)
            exact Or.inl (Or.inr ⟨Or.inl ⟨shared, p, q, restNoGlob, lower, by simpa using storedP,
              by simpa using storedQ, by simpa using acceptsP, by simpa using acceptsQ⟩, notLitQ⟩)
        | many => exact absurd rfl (noGlob .many List.mem_cons_self)

/-- A literal node, and a match-one node once it took its token, give their
own pattern first when no token is left, then what their children give. -/
theorem findToken_inOrder (layout : Layout tree entries shape pending) (placed : shape.place path = some address)
    (nodes : tree.nodes address = some node) (children : SearchesChildren entries shape path find)
    (ordered : OrdersChildren entries shape path find) (value : List (List UInt8))
    (noNul : ∀ token ∈ value, 0 ∉ token) :
    SearchesInOrder (fun visit s => tree.parseNodeFindToken visit (find visit) node value s)
      (Matches entries path value) (Parting entries path [] value) := by
  refine ((layout.visitIfDone_searches placed nodes value).inOrder.andThen
    (layout.findChildren_inOrder placed nodes children ordered value noNul)).congr (fun _ => matches_iff.symm) ?_
  intro P Q parting
  have notOwnQ : ¬(AssocList.lookup entries path = some Q ∧ value = []) :=
    fun ownQ => layout.not_own_of_parting parting ownQ.1
  by_cases own : AssocList.lookup entries path = some P
  · -- the node's own pattern is given before anything below it
    exact Or.inr ⟨Or.inr ⟨own, layout.nil_of_parting_own parting own⟩, notOwnQ⟩
  · exact Or.inr ⟨Or.inl ⟨parting, own⟩, notOwnQ⟩

end Children

/-- `parse_node_find` from the node of a path with no `#` gives what is stored
below it and matches the address from there on, two patterns that part below
the node in order, given fuel beyond the depth below the node. The induction is
on the fuel: the literal and match-one children's searches in order are the
hypothesis; the match-glob child's, not in order, is `find_searches`. -/
theorem find_inOrder (layout : Layout tree entries shape [])
    (apart : ∀ key ∈ AssocList.keys entries, Glob.ManyApart key) (fuel : Nat) :
    ∀ {path : Path} {address : Nat} {value : List (List UInt8)}, (∀ edge ∈ path, edge ≠ .many) →
      shape.place path = some address → Deep shape fuel path → (∀ token ∈ value, 0 ∉ token) →
      SearchesInOrder (σ := σ) (fun visit s => tree.parseNodeFind visit fuel address value s)
        (Found entries path value) (Parting entries path (lead path) value) := by
  induction fuel with
  | zero =>
      intro path address value _ placed deep
      exact absurd (deep [] (by simp [placed])) (Nat.not_lt_zero _)
  | succ fuel ih =>
      intro path address value noGlob placed deep noNul
      obtain ⟨node, nodes, fits⟩ := layout.nodeAt path address placed
      have children : SearchesChildren (σ := σ) entries shape path fun visit => tree.parseNodeFind visit fuel :=
        fun edge _ _ childPlaced childNoNul => layout.find_searches apart fuel childPlaced (deep.child edge) childNoNul
      have ordered : OrdersChildren (σ := σ) entries shape path fun visit => tree.parseNodeFind visit fuel := by
        intro edge _ _ notGlob childPlaced childNoNul
        refine ih (fun item inPath => ?_) childPlaced (deep.child edge) childNoNul
        rcases List.mem_append.mp inPath with inPath | isEdge
        · exact noGlob item inPath
        · rw [List.mem_singleton.mp isEdge]
          exact notGlob
      -- one step of the search: the match on the node's type
      simp only [QdParseTree.parseNodeFind, nodes, Option.bind_eq_bind, Option.bind_some, fits.matchType]
      rcases List.eq_nil_or_concat' path with rfl | ⟨path, edge, rfl⟩
      · refine (layout.findChildren_inOrder placed nodes children ordered value noNul).congr (fun item => ?_)
          fun P Q parting => ⟨by simpa using parting, by simp [layout.lookup_nil]⟩
        rw [found_nil, matches_iff, layout.lookup_nil]
        simp
      · rw [nodeType_append]
        cases edge with
        | lit token =>
            exact (layout.findToken_inOrder placed nodes children ordered value noNul).congr
              (fun _ => found_lit.symm) fun P Q parting => by simpa using parting
        | one =>
            cases value with
            | nil =>
                exact searches_none.inOrder.congr (fun _ => (iff_false_intro not_found_one_nil).symm)
                  fun P Q parting => not_parting_one_nil (by simpa using parting)
            | cons token rest =>
                have restNoNul : ∀ item ∈ rest, 0 ∉ item := fun item inRest =>
                  noNul item (List.mem_cons_of_mem token inRest)
                exact (layout.findToken_inOrder placed nodes children ordered rest restNoNul).congr
                  (fun _ => found_one_cons.symm) fun P Q parting => parting_one_cons.mp (by simpa using parting)
        | many => exact absurd rfl (noGlob .many (by simp))

end Layout

/-! ### The search from the root -/

/-- A pattern of literals only that spells a word parts from every other
pattern that matches the word, where the search goes to it first. -/
theorem parting_of_literal : ∀ {word : List (List UInt8)} {key : Path}, Glob.accepts key word = true →
    key ≠ word.map .lit →
    ∃ shared p q, (∀ edge ∈ shared, edge ≠ .many) ∧ searchRank p < searchRank q ∧
      word.map .lit = shared ++ p ∧ key = shared ++ q
  | [], [], _, differ => absurd rfl differ
  | [], .lit _ :: _, accepts, _ => by simp at accepts
  | [], .one :: _, accepts, _ => by simp at accepts
  | [], .many :: key, _, _ => ⟨[], [], .many :: key, by simp, Nat.zero_lt_two, rfl, rfl⟩
  | _ :: _, [], accepts, _ => by simp at accepts
  | token :: word, .lit other :: key, accepts, differ => by
      -- both begin with the word's first token: they part further on
      obtain ⟨rfl, acceptsRest⟩ : other = token ∧ Glob.accepts key word = true := by simpa using accepts
      have restDiffer : key ≠ word.map .lit := fun same => differ (by rw [same, List.map_cons])
      obtain ⟨shared, p, q, noGlob, lower, spells, isKey⟩ := parting_of_literal acceptsRest restDiffer
      exact ⟨.lit other :: shared, p, q, by simpa using noGlob, lower, by rw [List.map_cons, spells]; rfl,
        by rw [isKey]; rfl⟩
  | token :: word, .one :: key, _, _ => ⟨[], (token :: word).map .lit, .one :: key, by simp, Nat.zero_lt_one, rfl, rfl⟩
  | token :: word, .many :: key, _, _ =>
      ⟨[], (token :: word).map .lit, .many :: key, by simp, Nat.zero_lt_two, rfl, rfl⟩

namespace Layout

variable {tree : QdParseTree ν} {entries : Stored ν} {shape : Shape}

/-- `qd_parse_tree_search` gives the callback the stored patterns whose normal
form matches the address, in one list fixed by the tree; of two that share a
beginning with no `#` and part there, it gives first the one that ends there
or goes on with a literal before one that goes on with `*` or `#`, and one
that goes on with `*` before one that goes on with `#`. -/
theorem qdParseTreeSearch_inOrder (layout : Layout tree entries shape [])
    (apart : ∀ key ∈ AssocList.keys entries, Glob.ManyApart key) (view : List UInt8) :
    ∃ items : List (List UInt8 × Option ν),
      (∀ item, item ∈ items ↔ ∃ key, AssocList.lookup entries key = some item ∧
        Glob.accepts key (tokenIteratorInit tree.type (qdIteratorCopy view).octets) = true) ∧
      (∀ (visit : σ → List UInt8 → Option ν → Bool × σ) s,
        qdParseTreeSearch tree visit view s = some (Traversal.visitAll (fun s item => visit s item.1 item.2) s items).2) ∧
      ∀ (shared p q : Path) (P Q : List UInt8 × Option ν), (∀ edge ∈ shared, edge ≠ .many) →
        searchRank p < searchRank q →
        AssocList.lookup entries (shared ++ p) = some P → AssocList.lookup entries (shared ++ q) = some Q →
        Glob.accepts (shared ++ p) (tokenIteratorInit tree.type (qdIteratorCopy view).octets) = true →
        Glob.accepts (shared ++ q) (tokenIteratorInit tree.type (qdIteratorCopy view).octets) = true →
        Traversal.Precedes P Q items := by
  have noNul : ∀ token ∈ tokenIteratorInit tree.type (qdIteratorCopy view).octets, 0 ∉ token :=
    fun _ inTokens => zero_not_mem_token (qdIteratorCopy view).no_nul inTokens
  obtain ⟨items, traverses, members, ordered⟩ :=
    layout.find_inOrder (σ := σ) apart (tree.nextNode + 1) (by simp) layout.root layout.deep_root noNul
  refine ⟨items, fun item => ?_, fun visit s => ?_, fun shared p q P Q noGlob lower storedP storedQ acceptsP acceptsQ => ?_⟩
  · rw [members, found_nil]
    simp [Matches]
  · unfold qdParseTreeSearch
    exact congrArg (Option.map (·.2)) (traverses (fun s item => visit s item.1 item.2) s)
  · exact ordered P Q ⟨shared, p, q, noGlob, lower, by simpa using storedP, by simpa using storedQ,
      by simpa using acceptsP, by simpa using acceptsQ⟩

/-- `qd_parse_tree_retrieve_match` keeps a stored pattern of literals only that
spells the address: the search gives it first. -/
theorem qdParseTreeRetrieveMatch_literal (layout : Layout tree entries shape [])
    (apart : ∀ key ∈ AssocList.keys entries, Glob.ManyApart key) (view : List UInt8) {P : List UInt8 × Option ν}
    (stored : AssocList.lookup entries ((tokenIteratorInit tree.type (qdIteratorCopy view).octets).map .lit) = some P) :
    qdParseTreeRetrieveMatch tree view = some (P.2.isSome, P.2) := by
  obtain ⟨items, members, searches, ordered⟩ := layout.qdParseTreeSearch_inOrder (σ := Option ν) apart view
  have spelled := Glob.accepts_map_lit (tokenIteratorInit tree.type (qdIteratorCopy view).octets)
  -- P is found, so the search gives a first pattern; P comes before it, so it is P
  obtain ⟨first, rest, isCons⟩ := List.exists_cons_of_ne_nil (List.ne_nil_of_mem ((members P).mpr ⟨_, stored, spelled⟩))
  obtain ⟨key, storedFirst, acceptsFirst⟩ := (members first).mp (by rw [isCons]; exact List.mem_cons_self)
  have same : P = first := by
    by_cases literal : key = (tokenIteratorInit tree.type (qdIteratorCopy view).octets).map .lit
    · rw [literal, stored, Option.some.injEq] at storedFirst
      exact storedFirst
    · obtain ⟨shared, p, q, noGlob, lower, spells, isKey⟩ := parting_of_literal acceptsFirst literal
      rw [spells] at stored spelled
      rw [isKey] at storedFirst acceptsFirst
      exact (ordered shared p q P first noGlob lower stored storedFirst spelled acceptsFirst).eq_of_head?
        (by rw [isCons]; rfl)
  unfold qdParseTreeRetrieveMatch
  rw [searches, visitAll_getFirst, isCons, ← same]
  rfl

end Layout

variable {tree : QdParseTree ν} {entries : Stored ν} {shape : Shape}

theorem search_gives_best_match_first (layout : Layout tree entries shape [])
    (apart : ∀ key ∈ AssocList.keys entries, Glob.ManyApart key) (view : List UInt8) :
    (∃ items : List (List UInt8 × Option ν),
      (∀ item, item ∈ items ↔ ∃ key, AssocList.lookup entries key = some item ∧
        Glob.accepts key (tokenIteratorInit tree.type (qdIteratorCopy view).octets) = true) ∧
      (∀ (visit : σ → List UInt8 → Option ν → Bool × σ) s,
        qdParseTreeSearch tree visit view s = some (Traversal.visitAll (fun s item => visit s item.1 item.2) s items).2) ∧
      ∀ (shared p q : Path) (P Q : List UInt8 × Option ν), (∀ edge ∈ shared, edge ≠ .many) →
        searchRank p < searchRank q →
        AssocList.lookup entries (shared ++ p) = some P → AssocList.lookup entries (shared ++ q) = some Q →
        Glob.accepts (shared ++ p) (tokenIteratorInit tree.type (qdIteratorCopy view).octets) = true →
        Glob.accepts (shared ++ q) (tokenIteratorInit tree.type (qdIteratorCopy view).octets) = true →
        Traversal.Precedes P Q items) ∧
    ∀ P : List UInt8 × Option ν,
      AssocList.lookup entries ((tokenIteratorInit tree.type (qdIteratorCopy view).octets).map .lit) = some P →
      qdParseTreeRetrieveMatch tree view = some (P.2.isSome, P.2) :=
  ⟨layout.qdParseTreeSearch_inOrder apart view, fun _ stored => layout.qdParseTreeRetrieveMatch_literal apart view stored⟩

/-- `a.b`, `a.*` and `a.#` added with payloads 1, 2 and 3 to a new address
tree, which is then searched with `a.b`. -/
theorem search_gives_best_match_first_ab :
    ∃ (tree : QdParseTree Nat) (entries : Stored Nat) (shape : Shape),
      (Mealy.runPartial QdParseTree.apply (qdParseTreeNew .address)
          [.add [97, 46, 98] (some 1), .add [97, 46, 42] (some 2), .add [97, 46, 35] (some 3)]).map (·.2) = some tree ∧
      entries = [([.lit [97], .lit [98]], ([97, 46, 98], some 1)), ([.lit [97], .one], ([97, 46, 42], some 2)),
        ([.lit [97], .many], ([97, 46, 35], some 3))] ∧
      Layout tree entries shape [] ∧ (∀ key ∈ AssocList.keys entries, Glob.ManyApart key) ∧
      (∃ items : List (List UInt8 × Option Nat),
        (∀ item, item ∈ items ↔ ∃ key, AssocList.lookup entries key = some item ∧
          Glob.accepts key (tokenIteratorInit tree.type (qdIteratorCopy [97, 46, 98]).octets) = true) ∧
        (∀ (visit : Nat → List UInt8 → Option Nat → Bool × Nat) s,
          qdParseTreeSearch tree visit [97, 46, 98] s =
            some (Traversal.visitAll (fun s item => visit s item.1 item.2) s items).2) ∧
        ∀ (shared p q : Path) (P Q : List UInt8 × Option Nat), (∀ edge ∈ shared, edge ≠ .many) →
          searchRank p < searchRank q →
          AssocList.lookup entries (shared ++ p) = some P → AssocList.lookup entries (shared ++ q) = some Q →
          Glob.accepts (shared ++ p) (tokenIteratorInit tree.type (qdIteratorCopy [97, 46, 98]).octets) = true →
          Glob.accepts (shared ++ q) (tokenIteratorInit tree.type (qdIteratorCopy [97, 46, 98]).octets) = true →
          Traversal.Precedes P Q items) ∧
      ∀ P : List UInt8 × Option Nat,
        AssocList.lookup entries ((tokenIteratorInit tree.type (qdIteratorCopy [97, 46, 98]).octets).map .lit) =
          some P →
        qdParseTreeRetrieveMatch tree [97, 46, 98] = some (P.2.isSome, P.2) := by
  obtain ⟨tree, ran, -, -, shape, holds⟩ := run_refines .address
    [.add [97, 46, 98] (some 1), .add [97, 46, 42] (some 2), .add [97, 46, 35] (some 3)] (by decide)
  have entriesAre : (Mealy.run (Stored.apply .address) []
      [.add [97, 46, 98] (some 1), .add [97, 46, 42] (some 2), .add [97, 46, 35] (some 3)]).2 =
      [([.lit [97], .lit [98]], ([97, 46, 98], some 1)), ([.lit [97], .one], ([97, 46, 42], some 2)),
        ([.lit [97], .many], ([97, 46, 35], some 3))] := by decide
  have apart : ∀ key ∈ AssocList.keys (Mealy.run (Stored.apply .address) []
      [.add [97, 46, 98] (some 1), .add [97, 46, 42] (some 2), .add [97, 46, 35] (some 3)]).2,
      Glob.ManyApart key := by
    rw [entriesAre]
    decide
  exact ⟨tree, _, shape, by rw [ran]; rfl, entriesAre, holds.layout, apart,
    search_gives_best_match_first holds.layout apart [97, 46, 98]⟩

/-- Over every run of adds, removes and gets on a new tree of a type other than
MQTT whose costs fit the counter, the tree the run leaves gives the matches of
an address in that order, and `qd_parse_tree_retrieve_match` keeps a stored
pattern of literals that spells it. The layout is the run's (`run_refines`),
and the stored keys are normal forms, so no two `#` stand together. -/
theorem best_match_first_over_runs {type : ParseTreeType} (notMqtt : type ≠ .mqtt) (ops : List (Op ν))
    (budget : 2 + (ops.map (Op.cost type)).sum < 2 ^ 32) :
    ∃ tree, (Mealy.runPartial QdParseTree.apply (qdParseTreeNew type) ops).map (·.2) = some tree ∧
      ∀ view, (∃ items : List (List UInt8 × Option ν),
        (∀ item, item ∈ items ↔ ∃ key, AssocList.lookup (Mealy.run (Stored.apply type) [] ops).2 key = some item ∧
          Glob.accepts key (tokenIteratorInit type (qdIteratorCopy view).octets) = true) ∧
        (∀ (visit : σ → List UInt8 → Option ν → Bool × σ) s,
          qdParseTreeSearch tree visit view s = some (Traversal.visitAll (fun s item => visit s item.1 item.2) s items).2) ∧
        ∀ (shared p q : Path) (P Q : List UInt8 × Option ν), (∀ edge ∈ shared, edge ≠ .many) →
          searchRank p < searchRank q →
          AssocList.lookup (Mealy.run (Stored.apply type) [] ops).2 (shared ++ p) = some P →
          AssocList.lookup (Mealy.run (Stored.apply type) [] ops).2 (shared ++ q) = some Q →
          Glob.accepts (shared ++ p) (tokenIteratorInit type (qdIteratorCopy view).octets) = true →
          Glob.accepts (shared ++ q) (tokenIteratorInit type (qdIteratorCopy view).octets) = true →
          Traversal.Precedes P Q items) ∧
      ∀ P : List UInt8 × Option ν,
        AssocList.lookup (Mealy.run (Stored.apply type) [] ops).2
          ((tokenIteratorInit type (qdIteratorCopy view).octets).map .lit) = some P →
        qdParseTreeRetrieveMatch tree view = some (P.2.isSome, P.2) := by
  obtain ⟨tree, ran, isType, -, shape, holds⟩ := run_refines type ops budget
  have apart := manyApart_run notMqtt ops
  refine ⟨tree, by rw [ran]; rfl, fun view => ?_⟩
  subst isType
  exact ⟨holds.layout.qdParseTreeSearch_inOrder apart view,
    fun _ stored => holds.layout.qdParseTreeRetrieveMatch_literal apart view stored⟩

/-- The patterns `a.b`, `a.*` and `a.#` added to a new address tree, `a.*`
removed and `a.b` read back. -/
theorem best_match_first_over_runs_ab :
    ParseTreeType.address ≠ .mqtt ∧
      2 + (([.add [97, 46, 98] (some 1), .add [97, 46, 42] (some 2), .add [97, 46, 35] (some 3), .remove [97, 46, 42],
        .get [97, 46, 98]] : List (Op Nat)).map (Op.cost .address)).sum < 2 ^ 32 ∧
      ∃ tree, (Mealy.runPartial QdParseTree.apply (qdParseTreeNew .address)
          [.add [97, 46, 98] (some 1), .add [97, 46, 42] (some 2), .add [97, 46, 35] (some 3), .remove [97, 46, 42],
            .get [97, 46, 98]]).map (·.2) = some tree ∧
        ∀ view, (∃ items : List (List UInt8 × Option Nat),
          (∀ item, item ∈ items ↔ ∃ key, AssocList.lookup (Mealy.run (Stored.apply .address) []
              [.add [97, 46, 98] (some 1), .add [97, 46, 42] (some 2), .add [97, 46, 35] (some 3),
                .remove [97, 46, 42], .get [97, 46, 98]]).2 key = some item ∧
            Glob.accepts key (tokenIteratorInit .address (qdIteratorCopy view).octets) = true) ∧
          (∀ (visit : Nat → List UInt8 → Option Nat → Bool × Nat) s,
            qdParseTreeSearch tree visit view s =
              some (Traversal.visitAll (fun s item => visit s item.1 item.2) s items).2) ∧
          ∀ (shared p q : Path) (P Q : List UInt8 × Option Nat), (∀ edge ∈ shared, edge ≠ .many) →
            searchRank p < searchRank q →
            AssocList.lookup (Mealy.run (Stored.apply .address) []
              [.add [97, 46, 98] (some 1), .add [97, 46, 42] (some 2), .add [97, 46, 35] (some 3),
                .remove [97, 46, 42], .get [97, 46, 98]]).2 (shared ++ p) = some P →
            AssocList.lookup (Mealy.run (Stored.apply .address) []
              [.add [97, 46, 98] (some 1), .add [97, 46, 42] (some 2), .add [97, 46, 35] (some 3),
                .remove [97, 46, 42], .get [97, 46, 98]]).2 (shared ++ q) = some Q →
            Glob.accepts (shared ++ p) (tokenIteratorInit .address (qdIteratorCopy view).octets) = true →
            Glob.accepts (shared ++ q) (tokenIteratorInit .address (qdIteratorCopy view).octets) = true →
            Traversal.Precedes P Q items) ∧
        ∀ P : List UInt8 × Option Nat,
          AssocList.lookup (Mealy.run (Stored.apply .address) []
              [.add [97, 46, 98] (some 1), .add [97, 46, 42] (some 2), .add [97, 46, 35] (some 3),
                .remove [97, 46, 42], .get [97, 46, 98]]).2
            ((tokenIteratorInit .address (qdIteratorCopy view).octets).map .lit) = some P →
          qdParseTreeRetrieveMatch tree view = some (P.2.isSome, P.2) :=
  ⟨by decide, by decide, best_match_first_over_runs (by decide) _ (by decide)⟩

end DispatchRouter.ParseTree
