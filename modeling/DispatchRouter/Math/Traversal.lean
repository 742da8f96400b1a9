/-
# Traversals a callback can stop

A callback is given each item a traversal reaches, with its own state, and
says whether to go on. A traversal step gives whether to go on and the state,
or nothing when it cannot run. `andThen` runs the second step only if the
first did not stop; `visitAll` gives a list of items to the callback in turn.

A traversal that, from any state, does what `visitAll` does on one fixed list
is that list's traversal (`Traverses`): the list says which items are reached
and in which order, whatever the callback. `andThen` and `forEach` put such
lists together. Where only the set of items matters, `Reaches` forgets the
order and the repeats; `ReachesOnce` forgets the order only. `ReachesInOrder`
keeps, of the order, which of two items is given first (`Precedes`).
-/

import Mathlib.Data.List.Nodup

namespace DispatchRouter.Math.Traversal

variable {σ β ι : Type}

/-- Run `first`; unless it says to stop, go on with `next` from its state. -/
def andThen (first : Option (Bool × σ)) (next : σ → Option (Bool × σ)) : Option (Bool × σ) :=
  first.bind fun result => if result.1 then next result.2 else some (false, result.2)

/-- Give the items to the callback in turn until it says to stop. -/
def visitAll (visit : σ → β → Bool × σ) : σ → List β → Bool × σ
  | s, [] => (true, s)
  | s, item :: items =>
      let result := visit s item
      if result.1 then visitAll visit result.2 items else (false, result.2)

/-- Run a step on each element in turn until one says to stop. -/
def forEach (step : ι → σ → Option (Bool × σ)) : List ι → σ → Option (Bool × σ)
  | [], s => some (true, s)
  | element :: rest, s => andThen (step element s) (forEach step rest)

@[simp] theorem andThen_some_true (s : σ) (next : σ → Option (Bool × σ)) :
    andThen (some (true, s)) next = next s := rfl

@[simp] theorem andThen_some_false (s : σ) (next : σ → Option (Bool × σ)) :
    andThen (some (false, s)) next = some (false, s) := rfl

@[simp] theorem visitAll_nil (visit : σ → β → Bool × σ) (s : σ) : visitAll visit s [] = (true, s) := rfl

@[simp] theorem visitAll_singleton (visit : σ → β → Bool × σ) (s : σ) (item : β) :
    visitAll visit s [item] = visit s item := by
  unfold visitAll
  obtain ⟨go, state⟩ := visit s item
  cases go <;> rfl

theorem visitAll_append (visit : σ → β → Bool × σ) (s : σ) (first rest : List β) :
    visitAll visit s (first ++ rest) =
      if (visitAll visit s first).1 then visitAll visit (visitAll visit s first).2 rest
      else visitAll visit s first := by
  induction first generalizing s with
  | nil => rfl
  | cons item items ih =>
      simp only [List.cons_append, visitAll]
      split_ifs <;> simp_all

/-- A callback that never says to stop is given every item: the state is a
fold of the items. -/
theorem visitAll_of_continue {visit : σ → β → Bool × σ} (goesOn : ∀ s item, (visit s item).1 = true)
    (s : σ) (items : List β) : visitAll visit s items = (true, items.foldl (fun s item => (visit s item).2) s) := by
  induction items generalizing s with
  | nil => rfl
  | cons item items ih =>
      rw [visitAll, if_pos (goesOn s item), ih]
      rfl

/-- Two traversals of lists, one after the other, traverse the lists joined. -/
theorem andThen_visitAll (visit : σ → β → Bool × σ) (s : σ) (first rest : List β)
    {next : σ → Option (Bool × σ)} (traverses : ∀ s', next s' = some (visitAll visit s' rest)) :
    andThen (some (visitAll visit s first)) next = some (visitAll visit s (first ++ rest)) := by
  rw [visitAll_append]
  obtain ⟨go, state⟩ := visitAll visit s first
  cases go with
  | true => exact traverses state
  | false => rfl

/-- A step on each element, each traversing a list, traverses the lists joined. -/
theorem forEach_visitAll (visit : σ → β → Bool × σ) {step : ι → σ → Option (Bool × σ)}
    {visited : ι → List β} (elements : List ι)
    (traverses : ∀ element ∈ elements, ∀ s, step element s = some (visitAll visit s (visited element)))
    (s : σ) : forEach step elements s = some (visitAll visit s (elements.flatMap visited)) := by
  induction elements generalizing s with
  | nil => rfl
  | cons element rest ih =>
      rw [forEach, traverses element List.mem_cons_self, List.flatMap_cons]
      exact andThen_visitAll visit s _ _
        (fun s' => ih (fun other inRest => traverses other (List.mem_cons_of_mem element inRest)) s')

/-- `run`, with any callback and from any state, gives the callback the items
of `items` in turn. -/
def Traverses (run : (σ → β → Bool × σ) → σ → Option (Bool × σ)) (items : List β) : Prop :=
  ∀ visit s, run visit s = some (visitAll visit s items)

/-- `run` traverses a list of exactly the items that satisfy `P`, in an order
of its own and some of them more than once. -/
def Reaches (run : (σ → β → Bool × σ) → σ → Option (Bool × σ)) (P : β → Prop) : Prop :=
  ∃ items, Traverses run items ∧ ∀ item, item ∈ items ↔ P item

theorem traverses_nil : Traverses (fun _ s => some (true, s)) ([] : List β) (σ := σ) :=
  fun _ _ => rfl

theorem Traverses.andThen {run : (σ → β → Bool × σ) → σ → Option (Bool × σ)}
    {next : (σ → β → Bool × σ) → σ → Option (Bool × σ)} {first rest : List β}
    (traverses : Traverses run first) (traversesNext : Traverses next rest) :
    Traverses (fun visit s => andThen (run visit s) (next visit)) (first ++ rest) := by
  intro visit s
  show Traversal.andThen (run visit s) (next visit) = _
  rw [traverses visit s]
  exact andThen_visitAll visit s first rest (traversesNext visit)

theorem Traverses.forEach {step : (σ → β → Bool × σ) → ι → σ → Option (Bool × σ)}
    {visited : ι → List β} (elements : List ι)
    (traverses : ∀ element ∈ elements, Traverses (fun visit s => step visit element s) (visited element)) :
    Traverses (fun visit s => Traversal.forEach (step visit) elements s) (elements.flatMap visited) :=
  fun visit s => forEach_visitAll visit elements (fun element inElements => traverses element inElements visit) s

theorem Traverses.of_eq {run run' : (σ → β → Bool × σ) → σ → Option (Bool × σ)} {items : List β}
    (traverses : Traverses run items) (same : ∀ visit s, run' visit s = run visit s) :
    Traverses run' items :=
  fun visit s => (same visit s).trans (traverses visit s)

theorem reaches_none : Reaches (fun _ s => some (true, s)) (fun (_ : β) => False) (σ := σ) :=
  ⟨[], traverses_nil, by simp⟩

theorem Reaches.of_traverses {run : (σ → β → Bool × σ) → σ → Option (Bool × σ)} {items : List β}
    (traverses : Traverses run items) : Reaches run (· ∈ items) :=
  ⟨items, traverses, fun _ => Iff.rfl⟩

theorem Reaches.congr {run : (σ → β → Bool × σ) → σ → Option (Bool × σ)} {P Q : β → Prop}
    (reaches : Reaches run P) (same : ∀ item, P item ↔ Q item) : Reaches run Q := by
  obtain ⟨items, traverses, members⟩ := reaches
  exact ⟨items, traverses, fun item => (members item).trans (same item)⟩

theorem Reaches.of_eq {run run' : (σ → β → Bool × σ) → σ → Option (Bool × σ)} {P : β → Prop}
    (reaches : Reaches run P) (same : ∀ visit s, run' visit s = run visit s) : Reaches run' P := by
  obtain ⟨items, traverses, members⟩ := reaches
  exact ⟨items, traverses.of_eq same, members⟩

/-- One traversal after another reaches what either reaches. -/
theorem Reaches.andThen {run next : (σ → β → Bool × σ) → σ → Option (Bool × σ)} {P Q : β → Prop}
    (reaches : Reaches run P) (reachesNext : Reaches next Q) :
    Reaches (fun visit s => Traversal.andThen (run visit s) (next visit)) fun item => P item ∨ Q item := by
  obtain ⟨items, traverses, members⟩ := reaches
  obtain ⟨rest, traversesNext, restMembers⟩ := reachesNext
  exact ⟨items ++ rest, traverses.andThen traversesNext, fun item => by
    rw [List.mem_append, members, restMembers]⟩

/-- `run` traverses a list of exactly the items that satisfy `P`, each once. -/
def ReachesOnce (run : (σ → β → Bool × σ) → σ → Option (Bool × σ)) (P : β → Prop) : Prop :=
  ∃ items, Traverses run items ∧ items.Nodup ∧ ∀ item, item ∈ items ↔ P item

theorem reachesOnce_none : ReachesOnce (fun _ s => some (true, s)) (fun (_ : β) => False) (σ := σ) :=
  ⟨[], traverses_nil, List.nodup_nil, by simp⟩

theorem ReachesOnce.of_traverses {run : (σ → β → Bool × σ) → σ → Option (Bool × σ)} {items : List β}
    (traverses : Traverses run items) (nodup : items.Nodup) : ReachesOnce run (· ∈ items) :=
  ⟨items, traverses, nodup, fun _ => Iff.rfl⟩

theorem ReachesOnce.reaches {run : (σ → β → Bool × σ) → σ → Option (Bool × σ)} {P : β → Prop}
    (reaches : ReachesOnce run P) : Reaches run P := by
  obtain ⟨items, traverses, -, members⟩ := reaches
  exact ⟨items, traverses, members⟩

theorem ReachesOnce.congr {run : (σ → β → Bool × σ) → σ → Option (Bool × σ)} {P Q : β → Prop}
    (reaches : ReachesOnce run P) (same : ∀ item, P item ↔ Q item) : ReachesOnce run Q := by
  obtain ⟨items, traverses, nodup, members⟩ := reaches
  exact ⟨items, traverses, nodup, fun item => (members item).trans (same item)⟩

theorem ReachesOnce.of_eq {run run' : (σ → β → Bool × σ) → σ → Option (Bool × σ)} {P : β → Prop}
    (reaches : ReachesOnce run P) (same : ∀ visit s, run' visit s = run visit s) : ReachesOnce run' P := by
  obtain ⟨items, traverses, nodup, members⟩ := reaches
  exact ⟨items, traverses.of_eq same, nodup, members⟩

/-- One traversal after another reaches each item once, when no item is
reached by both. -/
theorem ReachesOnce.andThen {run next : (σ → β → Bool × σ) → σ → Option (Bool × σ)} {P Q : β → Prop}
    (reaches : ReachesOnce run P) (reachesNext : ReachesOnce next Q) (disjoint : ∀ item, P item → ¬Q item) :
    ReachesOnce (fun visit s => Traversal.andThen (run visit s) (next visit)) fun item => P item ∨ Q item := by
  obtain ⟨items, traverses, nodup, members⟩ := reaches
  obtain ⟨rest, traversesNext, restNodup, restMembers⟩ := reachesNext
  refine ⟨items ++ rest, traverses.andThen traversesNext, ?_, fun item => by
    rw [List.mem_append, members, restMembers]⟩
  refine List.nodup_append.mpr ⟨nodup, restNodup, fun item inItems other inRest same => ?_⟩
  subst same
  exact disjoint item ((members item).mp inItems) ((restMembers item).mp inRest)

/-- A step on each of distinct elements, each reaching its own items once,
reaches each of their items once. -/
theorem ReachesOnce.forEach {step : (σ → β → Bool × σ) → ι → σ → Option (Bool × σ)} {P : ι → β → Prop}
    {elements : List ι} (nodup : elements.Nodup)
    (reaches : ∀ element ∈ elements, ReachesOnce (fun visit s => step visit element s) (P element))
    (disjoint : ∀ element ∈ elements, ∀ other ∈ elements, ∀ item, P element item → P other item → element = other) :
    ReachesOnce (fun visit s => Traversal.forEach (step visit) elements s)
      fun item => ∃ element ∈ elements, P element item := by
  classical
  -- one list for every element, the one it reaches if it is among the elements
  have pick : ∀ element, ∃ items : List β, element ∈ elements →
      Traverses (fun visit s => step visit element s) items ∧ items.Nodup ∧ ∀ item, item ∈ items ↔ P element item := by
    intro element
    by_cases inElements : element ∈ elements
    · obtain ⟨items, spec⟩ := reaches element inElements
      exact ⟨items, fun _ => spec⟩
    · exact ⟨[], fun inside => absurd inside inElements⟩
  choose visited spec using pick
  refine ⟨elements.flatMap visited, Traverses.forEach elements fun element inElements => (spec element inElements).1,
    ?_, fun item => ?_⟩
  · refine List.nodup_flatMap.mpr ⟨fun element inElements => (spec element inElements).2.1, ?_⟩
    refine nodup.pairwise_of_forall_ne fun element inElements other inOther differ item inFirst inSecond => ?_
    exact differ (disjoint element inElements other inOther item ((spec element inElements).2.2 item |>.mp inFirst)
      ((spec other inOther).2.2 item |>.mp inSecond))
  · simp only [List.mem_flatMap]
    constructor
    · rintro ⟨element, inElements, inVisited⟩
      exact ⟨element, inElements, ((spec element inElements).2.2 item).mp inVisited⟩
    · rintro ⟨element, inElements, holds⟩
      exact ⟨element, inElements, ((spec element inElements).2.2 item).mpr holds⟩

/-! ### The order of what is reached -/

/-- `a` is given to the callback before `b` is given for the first time. -/
def Precedes (a b : β) (items : List β) : Prop :=
  ∃ front back, items = front ++ a :: back ∧ b ∉ front

theorem Precedes.append_right {a b : β} {items : List β} (precedes : Precedes a b items) (rest : List β) :
    Precedes a b (items ++ rest) := by
  obtain ⟨front, back, rfl, absent⟩ := precedes
  exact ⟨front, back ++ rest, by simp, absent⟩

theorem Precedes.append_left {a b : β} {items : List β} (precedes : Precedes a b items) {first : List β}
    (absent : b ∉ first) : Precedes a b (first ++ items) := by
  obtain ⟨front, back, rfl, notFront⟩ := precedes
  refine ⟨first ++ front, back, by simp, ?_⟩
  rw [List.mem_append]
  exact fun inEither => inEither.elim absent notFront

theorem precedes_append_of_mem {a b : β} {first : List β} (present : a ∈ first) (absent : b ∉ first)
    (rest : List β) : Precedes a b (first ++ rest) := by
  obtain ⟨front, back, rfl⟩ := List.append_of_mem present
  refine Precedes.append_right ⟨front, back, rfl, fun inFront => absent ?_⟩ rest
  exact List.mem_append_left _ inFront

/-- Only the first item precedes the first item. -/
theorem Precedes.eq_of_head? {a b : β} {items : List β} (precedes : Precedes a b items)
    (first : items.head? = some b) : a = b := by
  obtain ⟨front, back, rfl, absent⟩ := precedes
  cases front with
  | nil => simpa using first
  | cons head front =>
      rw [List.cons_append, List.head?_cons, Option.some.injEq] at first
      exact absurd (first ▸ List.mem_cons_self) absent

/-- `run` traverses a list of exactly the items that satisfy `P`, in which of
any two items that `R` relates the first comes before the second does. -/
def ReachesInOrder (run : (σ → β → Bool × σ) → σ → Option (Bool × σ)) (P : β → Prop)
    (R : β → β → Prop) : Prop :=
  ∃ items, Traverses run items ∧ (∀ item, item ∈ items ↔ P item) ∧ ∀ a b, R a b → Precedes a b items

section InOrder

variable {run next : (σ → β → Bool × σ) → σ → Option (Bool × σ)} {P Q : β → Prop} {R S : β → β → Prop}

theorem Reaches.inOrder (reaches : Reaches run P) : ReachesInOrder run P fun _ _ => False := by
  obtain ⟨items, traverses, members⟩ := reaches
  exact ⟨items, traverses, members, fun _ _ => False.elim⟩

theorem ReachesInOrder.reaches (reaches : ReachesInOrder run P R) : Reaches run P := by
  obtain ⟨items, traverses, members, -⟩ := reaches
  exact ⟨items, traverses, members⟩

theorem ReachesInOrder.congr (reaches : ReachesInOrder run P R) (same : ∀ item, P item ↔ Q item)
    (fewer : ∀ a b, S a b → R a b) : ReachesInOrder run Q S := by
  obtain ⟨items, traverses, members, ordered⟩ := reaches
  exact ⟨items, traverses, fun item => (members item).trans (same item), fun a b related =>
    ordered a b (fewer a b related)⟩

theorem ReachesInOrder.of_eq {run' : (σ → β → Bool × σ) → σ → Option (Bool × σ)}
    (reaches : ReachesInOrder run P R) (same : ∀ visit s, run' visit s = run visit s) :
    ReachesInOrder run' P R := by
  obtain ⟨items, traverses, members, ordered⟩ := reaches
  exact ⟨items, traverses.of_eq same, members, ordered⟩

/-- One traversal after another keeps the order of the first, and that of the
second for items the first does not reach; what the first reaches comes before
what only the second does. -/
theorem ReachesInOrder.andThen (reaches : ReachesInOrder run P R) (reachesNext : ReachesInOrder next Q S) :
    ReachesInOrder (fun visit s => Traversal.andThen (run visit s) (next visit)) (fun item => P item ∨ Q item)
      fun a b => R a b ∨ (S a b ∨ P a) ∧ ¬P b := by
  obtain ⟨items, traverses, members, ordered⟩ := reaches
  obtain ⟨rest, traversesNext, restMembers, restOrdered⟩ := reachesNext
  refine ⟨items ++ rest, traverses.andThen traversesNext, fun item => by
    rw [List.mem_append, members, restMembers], fun a b related => ?_⟩
  have absent : ¬P b → b ∉ items := fun notFirst inItems => notFirst ((members b).mp inItems)
  rcases related with first | ⟨second | inFirst, notFirst⟩
  · exact (ordered a b first).append_right rest
  · exact (restOrdered a b second).append_left (absent notFirst)
  · exact precedes_append_of_mem ((members a).mpr inFirst) (absent notFirst) rest

end InOrder

end DispatchRouter.Math.Traversal
