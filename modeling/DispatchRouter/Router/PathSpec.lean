/-
# What the path engine starts from

`_calculate_tree_from_root` runs Dijkstra's algorithm over a copy of the
collection: each collected router keeps its own peers, and a peer that has no
link state of its own is given one link, of cost 1, back to the first router of
the collection whose link state names it (`linkStates_get?_collected`,
`linkStates_get?_named`). Which router that is depends on the order of the
collection's entries, and with it the routes: two collections with the same
link states in another order give another next hop table.
-/

import DispatchRouter.Router.Path

namespace DispatchRouter.Router

open Math

/-- The first router of the collection whose link state names `peer`. -/
def firstNamer (entries : List (String × LinkState)) (peer : String) : Option String :=
  (entries.find? fun entry => peer ∈ entry.2.peers.keys).map (·.1)

/-- The link state made for a peer that has none: one link, back to `id`. -/
def fakePeers (id : String) : Dict String Nat :=
  Dict.empty.set id 1

/-- The loop over one router's peers: a peer already in the copy keeps its
entry, and a new one gets its fake link state. -/
theorem foldl_fake_get? (id p : String) :
    ∀ (peers : List String) (states : Dict String (Dict String Nat)),
      (peers.foldl
          (fun states peer => if states.contains peer then states else states.set peer (Dict.empty.set id 1))
          states).get? p =
        (states.get? p).or (if p ∈ peers then some (fakePeers id) else none) := by
  intro peers
  induction peers with
  | nil =>
      intro states
      simp
  | cons q rest ih =>
      intro states
      rw [List.foldl_cons, ih]
      by_cases known : states.contains q = true
      · rw [if_pos known]
        by_cases same : p = q
        · -- `p` is there already: both sides read its entry
          subst same
          obtain ⟨v, found⟩ := Option.ne_none_iff_exists'.mp
            (Dict.mem_keys_iff.mp (by simpa [Dict.contains] using known))
          simp [found]
        · simp [same]
      · rw [if_neg known, Dict.get?_set]
        by_cases same : p = q
        · subst same
          have absent : states.get? p = none := by
            by_contra present
            exact known (by simpa [Dict.contains] using Dict.mem_keys_iff.mpr present)
          simp [absent, fakePeers]
        · simp [same]

/-- The loop over the collection, read at a key no collected router has: what
the copy had, or else the fake link state back to the first router naming it. -/
theorem foldl_linkStates_get?_named (p : String) :
    ∀ (entries : List (String × LinkState)) (states : Dict String (Dict String Nat)),
      p ∉ entries.map (·.1) →
      (entries.foldl
          (fun states entry =>
            entry.2.peers.keys.foldl
              (fun states peer =>
                if states.contains peer then states else states.set peer (Dict.empty.set entry.1 1))
              (states.set entry.1 entry.2.peers))
          states).get? p =
        (states.get? p).or ((firstNamer entries p).map fakePeers) := by
  intro entries
  induction entries with
  | nil =>
      intro states _
      simp [firstNamer]
  | cons entry rest ih =>
      intro states uncollected
      have other : p ≠ entry.1 := fun same => uncollected (by simp [same])
      have restUncollected : p ∉ rest.map (·.1) := fun there => uncollected (by simp [there])
      rw [List.foldl_cons, ih _ restUncollected, foldl_fake_get?, Dict.get?_set, if_neg other,
        Option.or_assoc]
      congr 1
      by_cases named : p ∈ entry.2.peers.keys
      · simp [firstNamer, named]
      · simp [firstNamer, named]

/-- A peer with no link state of its own has, in the copy, one link back to
the first router of the collection that names it. -/
theorem linkStates_get?_named (collection : Dict String LinkState) {p : String}
    (uncollected : p ∉ collection.keys) :
    (linkStates collection).get? p = (firstNamer collection.entries p).map fakePeers := by
  rw [linkStates, foldl_linkStates_get?_named p collection.entries Dict.empty uncollected]
  simp

/-- A collected router keeps its own peers in the copy. -/
theorem linkStates_get?_collected (collection : Dict String LinkState) {k : String} {ls : LinkState}
    (collected : collection.get? k = some ls) :
    (linkStates collection).get? k = some ls.peers := by
  obtain ⟨pre, post, split⟩ := List.append_of_mem (Dict.mem_entries_of_get? collected)
  have distinct := collection.distinct
  rw [split, List.map_append, List.map_cons, List.nodup_append, List.nodup_cons] at distinct
  have laterUncollected : k ∉ post.map (·.1) := distinct.2.1.1
  rw [linkStates, split, List.foldl_append, List.foldl_cons,
    foldl_linkStates_get?_named k post _ laterUncollected, foldl_fake_get?, Dict.get?_set, if_pos rfl]
  rfl

/-! ### The order of the collection matters -/

/-- A link state reported with sequence number 1, for writing collections down. -/
def reported (id : String) (peers : List (String × Nat)) : LinkState :=
  ⟨id, 1, Dict.ofList peers, 0⟩

/-- Router `R` and router `X` both name `P`, which has sent no link state yet;
the second collection lists the same two link states the other way round. -/
def collectionRX : Dict String LinkState :=
  Dict.ofList [("R", reported "R" [("P", 1)]), ("X", reported "X" [("P", 1)])]

def collectionXR : Dict String LinkState :=
  Dict.ofList [("X", reported "X" [("P", 1)]), ("R", reported "R" [("P", 1)])]

/-- `calculate_routes` at `R`: with `R` first, `P`'s fake link goes back to `R`
and `X` is not reached; with `X` first it goes to `X`, which `R` then reaches
through `P`. -/
theorem calculate_routes_depends_on_order :
    (calculateRoutes "R" collectionRX).map (fun routes => (routes.nextHops.get? "X", routes.radius)) =
        some (none, 1) ∧
      (calculateRoutes "R" collectionXR).map (fun routes => (routes.nextHops.get? "X", routes.radius)) =
        some (some "P", 2) := by
  constructor <;> decide +kernel

end DispatchRouter.Router
