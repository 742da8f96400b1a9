/-
# When the prefix counter comes round

`next_hkey_prefix` is a `uint32_t` that only ever goes up: once `2^32` nodes
have been made it gives again a prefix that a live node has. Below, a new
address tree takes `b`: the root has prefix 1 and the node of `b` prefix 2.
Adding `c` and removing it again moves the counter on by one and leaves the
tree as it was, so `2^32 - 2` such rounds bring the counter to 1. The node
made for `x` when `x.b` is then added takes the root's prefix, the key of its
child `b` is the key of the root's child `b`, and the add finds that node,
which holds a pattern: it answers `QD_ERROR_ALREADY_EXISTS` though `x.b` is
not stored.
-/

import DispatchRouter.ParseTree.Machine

namespace DispatchRouter.ParseTree

open Math Hash

variable {ν : Type}

namespace Layout

variable {tree : QdParseTree ν} {entries : Stored ν} {shape : Shape}

/-- Adding a pattern whose normal form is one literal with no node makes
exactly that node, with the counter's prefix, when no live node has it. -/
theorem add_lit (layout : Layout tree entries shape []) {pattern token : List UInt8} (noNul : 0 ∉ pattern)
    (isForm : normalForm tree.type pattern = [.lit token]) (missing : shape.place [.lit token] = none)
    (payload : Option ν) (fresh : ∀ other, shape.place other ≠ none → shape.hkeyPrefix other ≠ tree.nextHkeyPrefix) :
    ∃ tree' shape', tree.parseNodeAddPattern pattern payload = some (.none, tree') ∧
      Layout tree' (entries ++ [([.lit token], (normalizePattern tree.type pattern, payload))]) shape' [] ∧
      tree'.type = tree.type ∧ tree'.nextHkeyPrefix = tree.nextHkeyPrefix + 1 ∧
      (∀ path, shape.place path ≠ none → shape'.hkeyPrefix path = shape.hkeyPrefix path) ∧
      shape'.hkeyPrefix [.lit token] = tree.nextHkeyPrefix := by
  have absent : [.lit token] ∉ AssocList.keys entries := fun isKey =>
    layout.complete _ isKey _ (List.prefix_refl _) missing
  obtain ⟨tree', shape', made, added, layout', bound, walked⟩ :=
    layout.parseNodeAddPattern_spec noNul payload (by simp [isForm])
      (fun i small other alive => by
        rw [isForm, List.length_singleton, Nat.lt_one_iff] at small
        subst small
        simpa using fresh other alive)
  rw [isForm] at added layout' bound
  have stored : Stored.add entries [.lit token] (normalizePattern tree.type pattern, payload) =
      (.none, entries ++ [([.lit token], (normalizePattern tree.type pattern, payload))]) := by
    simp [Stored.add, absent]
  rw [stored] at added layout'
  -- the literal's node is new: it took the counter's prefix, and it is the only one made
  have alive : shape'.place [.lit token] ≠ none :=
    layout'.complete _ (by simp [AssocList.keys_append]) _ (List.prefix_refl _)
  obtain ⟨i, small, isPrefix⟩ := walked.madePrefix _ alive missing
  have one : made = 1 := by simp at bound; omega
  have first : i = 0 := by omega
  subst one first
  exact ⟨tree', shape', added, layout', walked.type, walked.counter, fun path alive => (walked.kept path alive).2,
    by simpa using isPrefix⟩

end Layout

/-- The map that holds `b`. -/
abbrev storedB : Stored Unit := [([.lit [98]], ([98], some ()))]

/-- An address tree that holds `b` alone, the root with prefix 1 and the node
of `b` with prefix 2. -/
structure HoldsB (tree : QdParseTree Unit) (shape : Shape) : Prop where
  layout : Layout tree storedB shape []
  type_eq : tree.type = .address
  rootPrefix : shape.hkeyPrefix [] = 1
  bPrefix : shape.hkeyPrefix [.lit [98]] = 2

namespace HoldsB

variable {tree : QdParseTree Unit} {shape : Shape}

/-- Only the root and the node of `b` are live. -/
theorem alive (holds : HoldsB tree shape) {path : Path} (alive : shape.place path ≠ none) :
    path = [] ∨ path = [.lit [98]] := by
  rcases holds.layout.justified path alive with root | ⟨key, isKey, begins⟩
  · exact .inl root
  · simp only [AssocList.keys, List.map_cons, List.map_nil, List.append_nil, List.mem_singleton] at isKey
    subst isKey
    rcases List.prefix_cons_iff.mp begins with root | ⟨rest, isPath, restBegins⟩
    · exact .inl root
    · rw [List.prefix_nil] at restBegins
      exact .inr (by rw [isPath, restBegins])

/-- A counter at neither live prefix is free. -/
theorem fresh (holds : HoldsB tree shape) (notRoot : tree.nextHkeyPrefix ≠ 1) (notB : tree.nextHkeyPrefix ≠ 2)
    (other : Path) (alive : shape.place other ≠ none) : shape.hkeyPrefix other ≠ tree.nextHkeyPrefix := by
  rcases holds.alive alive with rfl | rfl
  · rw [holds.rootPrefix]
    exact fun same => notRoot same.symm
  · rw [holds.bPrefix]
    exact fun same => notB same.symm

/-- Adding `c` and removing it again answers as the map does, leaves the tree
holding `b` alone with the same prefixes, and moves the counter on by one. -/
theorem cycle (holds : HoldsB tree shape) (notRoot : tree.nextHkeyPrefix ≠ 1) (notB : tree.nextHkeyPrefix ≠ 2) :
    ∃ tree' shape', Mealy.runPartial QdParseTree.apply tree [.add [99] (some ()), .remove [99]] =
        some ([.added .none, .removed (some ())], tree') ∧
      HoldsB tree' shape' ∧ tree'.nextHkeyPrefix = tree.nextHkeyPrefix + 1 := by
  have missing : shape.place [.lit [99]] = none := by
    by_contra alive
    rcases holds.alive alive with isRoot | isB
    · cases isRoot
    · simp at isB
  obtain ⟨added, shapeAdded, addedEq, addedLayout, addedType, addedCounter, addedKept, -⟩ :=
    holds.layout.add_lit (show (0 : UInt8) ∉ [99] by decide) (by rw [holds.type_eq]; decide) missing (some ())
      (holds.fresh notRoot notB)
  obtain ⟨removed, shapeRemoved, removedEq, removedLayout, pruned⟩ :=
    addedLayout.qdParseTreeRemovePattern_spec [99]
  have normal : normalForm added.type (qdIteratorCopy [99]).octets = [.lit [99]] := by
    rw [addedType, holds.type_eq]
    decide
  rw [normal, holds.type_eq] at removedEq removedLayout
  have erased : Stored.remove (storedB ++ [([.lit [99]], (normalizePattern .address [99], some ()))]) [.lit [99]] =
      (some ([99], some ()), storedB) := by decide
  rw [erased] at removedEq removedLayout
  -- the root and `b` stay live through both calls, with their prefixes
  have kept : ∀ path, path = [] ∨ path = [.lit [98]] → shapeRemoved.hkeyPrefix path = shape.hkeyPrefix path := by
    intro path isLive
    have alive : ∀ {shape' : Shape} {tree' : QdParseTree Unit}, Layout tree' storedB shape' [] → shape'.place path ≠ none := by
      intro shape' tree' layout
      rcases isLive with rfl | rfl
      · rw [layout.root]
        simp
      · exact layout.complete _ (by simp [AssocList.keys]) _ (List.prefix_refl _)
    rw [(pruned.kept path (alive removedLayout)).2, addedKept path (alive holds.layout)]
  refine ⟨removed, shapeRemoved, ?_, ⟨removedLayout, ?_, ?_, ?_⟩, by rw [pruned.counter, addedCounter]⟩
  · have copied : (qdIteratorCopy [99]).octets = [99] := by decide
    simp [Mealy.runPartial, QdParseTree.apply, qdParseTreeAddPattern, copied, addedEq, removedEq]
  · rw [pruned.type, addedType, holds.type_eq]
  · rw [kept [] (.inl rfl), holds.rootPrefix]
  · rw [kept _ (.inr rfl), holds.bPrefix]

end HoldsB

end DispatchRouter.ParseTree
