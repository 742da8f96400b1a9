/-
# Token patterns with wildcards

A pattern is a list of items: a literal token, `one`, which stands for exactly
one token, and `many`, which stands for any number of tokens, none included.
`accepts` says whether a pattern matches a word of tokens; it is structural in
the pattern, and `many` tries every suffix of the word.

`norm` rewrites a pattern so that in every run of wildcards the `one`s come
first and at most one `many` follows them. The rewriting keeps the language,
and its result never holds `many` twice in a row: that is what a matcher which
gives a `many` nothing to match at the end of a word needs.
-/

import Mathlib.Data.List.Infix
import Mathlib.Data.List.Chain

namespace DispatchRouter.Math

/-- One item of a pattern. -/
inductive Glob (α : Type) where
  | lit (token : α)
  | one
  | many
  deriving DecidableEq, Repr

namespace Glob

variable {α : Type} [DecidableEq α]

/-- Whether the pattern matches the whole word. -/
def accepts : List (Glob α) → List α → Bool
  | [], word => word.isEmpty
  | lit a :: pattern, word =>
      match word with
      | b :: word => decide (a = b) && accepts pattern word
      | [] => false
  | one :: pattern, word =>
      match word with
      | _ :: word => accepts pattern word
      | [] => false
  | many :: pattern, word => word.tails.any (accepts pattern)

section Accepts

variable {pattern : List (Glob α)} {word : List α}

@[simp] theorem accepts_nil_nil : accepts ([] : List (Glob α)) [] = true := rfl

@[simp] theorem accepts_nil_cons (b : α) (word : List α) :
    accepts ([] : List (Glob α)) (b :: word) = false := rfl

@[simp] theorem accepts_lit_nil (a : α) : accepts (lit a :: pattern) [] = false := rfl

@[simp] theorem accepts_lit_cons (a b : α) :
    accepts (lit a :: pattern) (b :: word) = (decide (a = b) && accepts pattern word) := rfl

@[simp] theorem accepts_one_nil : accepts (one :: pattern) [] = false := rfl

@[simp] theorem accepts_one_cons (b : α) :
    accepts (one :: pattern) (b :: word) = accepts pattern word := rfl

/-- `many` tries every suffix of the word. -/
theorem accepts_many : accepts (many :: pattern) word = word.tails.any (accepts pattern) := rfl

@[simp] theorem accepts_many_nil : accepts (many :: pattern) [] = accepts pattern [] := by
  simp [accepts_many]

/-- `many` either stops before the first token or takes it. -/
@[simp] theorem accepts_many_cons (b : α) :
    accepts (many :: pattern) (b :: word) =
      (accepts pattern (b :: word) || accepts (many :: pattern) word) := by
  simp only [accepts_many, List.tails_cons, List.any_cons]

theorem accepts_many_iff :
    accepts (many :: pattern) word = true ↔ ∃ rest, rest <:+ word ∧ accepts pattern rest = true := by
  simp only [accepts_many, List.any_eq_true, List.mem_tails]

/-- A pattern matches the empty word when it is all `many`. -/
theorem accepts_nil_iff : accepts pattern [] = true ↔ ∀ item ∈ pattern, item = many := by
  induction pattern with
  | nil => simp
  | cons item pattern ih =>
      cases item with
      | lit a => simp
      | one => simp
      | many => simp [ih]

/-- A pattern of literals only matches the word it spells. -/
@[simp] theorem accepts_map_lit (word : List α) : accepts (word.map lit) word = true := by
  induction word with
  | nil => rfl
  | cons b word ih => simp [ih]

omit [DecidableEq α] in
/-- A suffix of a word's tail, with one token more, is a suffix of the word. -/
theorem exists_cons_suffix {rest tail : List α} (b : α) (suffix : rest <:+ tail) :
    ∃ c, c :: rest <:+ b :: tail := by
  obtain ⟨front, rfl⟩ := suffix
  induction front generalizing b with
  | nil => exact ⟨b, List.suffix_refl _⟩
  | cons c front ih =>
      obtain ⟨d, inner⟩ := ih c
      exact ⟨d, inner.trans (List.suffix_cons b _)⟩

theorem accepts_many_many : accepts (many :: many :: pattern) = accepts (many :: pattern) := by
  funext word
  rw [Bool.eq_iff_iff, accepts_many_iff, accepts_many_iff]
  constructor
  · rintro ⟨rest, outer, inner⟩
    obtain ⟨last, suffix, matched⟩ := accepts_many_iff.mp inner
    exact ⟨last, suffix.trans outer, matched⟩
  · rintro ⟨rest, suffix, matched⟩
    exact ⟨rest, suffix, accepts_many_iff.mpr ⟨rest, List.suffix_refl _, matched⟩⟩

/-- `many` before `one` matches as `one` before `many`. -/
theorem accepts_many_one : accepts (many :: one :: pattern) = accepts (one :: many :: pattern) := by
  funext word
  rw [Bool.eq_iff_iff, accepts_many_iff]
  constructor
  · rintro ⟨rest, suffix, matched⟩
    cases rest with
    | nil => simp at matched
    | cons c rest =>
        -- the token `one` takes lies in the word, so the word has a first token
        cases word with
        | nil => simp at suffix
        | cons b word =>
            rw [accepts_one_cons] at matched ⊢
            have later : rest <:+ word := (List.suffix_cons_iff.mp suffix).elim
              (fun same => by rw [(List.cons_eq_cons.mp same).2])
              (fun inner => (List.suffix_cons c rest).trans inner)
            exact accepts_many_iff.mpr ⟨rest, later, matched⟩
  · intro matched
    cases word with
    | nil => simp at matched
    | cons b word =>
        rw [accepts_one_cons] at matched
        obtain ⟨rest, suffix, restMatched⟩ := accepts_many_iff.mp matched
        obtain ⟨c, longer⟩ := exists_cons_suffix b suffix
        exact ⟨c :: rest, longer, restMatched⟩

/-- The items after the first decide what a pattern accepts. -/
theorem accepts_cons_congr {other : List (Glob α)} (item : Glob α)
    (same : accepts pattern = accepts other) :
    accepts (item :: pattern) = accepts (item :: other) := by
  funext word
  cases item with
  | many => simp only [accepts_many, same]
  | lit a => cases word <;> simp [same]
  | one => cases word <;> simp [same]

end Accepts

/-! ### Normal form -/

mutual

/-- Move each `one` in front of the `many`s of its run, and keep one `many` of
a run. -/
def norm : List (Glob α) → List (Glob α)
  | [] => []
  | many :: pattern => normMany pattern
  | one :: pattern => one :: norm pattern
  | lit a :: pattern => lit a :: norm pattern

/-- `norm` after a `many` not yet written. -/
def normMany : List (Glob α) → List (Glob α)
  | [] => [many]
  | many :: pattern => normMany pattern
  | one :: pattern => one :: normMany pattern
  | lit a :: pattern => many :: lit a :: norm pattern

end

omit [DecidableEq α] in
@[simp] theorem norm_nil : norm ([] : List (Glob α)) = [] := rfl

omit [DecidableEq α] in
@[simp] theorem norm_many (pattern : List (Glob α)) : norm (many :: pattern) = normMany pattern := rfl

omit [DecidableEq α] in
@[simp] theorem norm_one (pattern : List (Glob α)) : norm (one :: pattern) = one :: norm pattern := rfl

omit [DecidableEq α] in
@[simp] theorem norm_lit (a : α) (pattern : List (Glob α)) :
    norm (lit a :: pattern) = lit a :: norm pattern := rfl

omit [DecidableEq α] in
@[simp] theorem normMany_nil : normMany ([] : List (Glob α)) = [many] := rfl

omit [DecidableEq α] in
@[simp] theorem normMany_many (pattern : List (Glob α)) :
    normMany (many :: pattern) = normMany pattern := rfl

omit [DecidableEq α] in
@[simp] theorem normMany_one (pattern : List (Glob α)) :
    normMany (one :: pattern) = one :: normMany pattern := rfl

omit [DecidableEq α] in
@[simp] theorem normMany_lit (a : α) (pattern : List (Glob α)) :
    normMany (lit a :: pattern) = many :: lit a :: norm pattern := rfl

/-- Both rewritings keep the language: by induction on the pattern, the two
together. -/
theorem accepts_norm_normMany (pattern : List (Glob α)) :
    accepts (norm pattern) = accepts pattern ∧
      accepts (normMany pattern) = accepts (many :: pattern) := by
  induction pattern with
  | nil => exact ⟨rfl, rfl⟩
  | cons item pattern ih =>
      obtain ⟨normSame, manySame⟩ := ih
      cases item with
      | many => exact ⟨manySame, manySame.trans accepts_many_many.symm⟩
      | one =>
          refine ⟨accepts_cons_congr one normSame, ?_⟩
          rw [normMany_one, accepts_cons_congr one manySame, accepts_many_one]
      | lit a =>
          refine ⟨accepts_cons_congr (lit a) normSame, ?_⟩
          rw [normMany_lit, accepts_cons_congr many (accepts_cons_congr (lit a) normSame)]

theorem accepts_norm (pattern : List (Glob α)) : accepts (norm pattern) = accepts pattern :=
  (accepts_norm_normMany pattern).1

/-- No `many` right after a `many`. -/
def ManyApart (pattern : List (Glob α)) : Prop :=
  pattern.IsChain fun item next => ¬(item = many ∧ next = many)

instance (pattern : List (Glob α)) : Decidable (ManyApart pattern) :=
  inferInstanceAs (Decidable (pattern.IsChain fun item next => ¬(item = many ∧ next = many)))

omit [DecidableEq α] in
/-- An item other than `many` may stand before anything. -/
theorem ManyApart.cons {item : Glob α} {pattern : List (Glob α)} (notMany : item ≠ many)
    (apart : ManyApart pattern) : ManyApart (item :: pattern) := by
  unfold ManyApart at apart ⊢
  rw [List.isChain_cons]
  exact ⟨fun _ _ both => notMany both.1, apart⟩

omit [DecidableEq α] in
theorem manyApart_norm_normMany (pattern : List (Glob α)) :
    ManyApart (norm pattern) ∧ ManyApart (normMany pattern) := by
  induction pattern with
  | nil => exact ⟨List.IsChain.nil, List.isChain_singleton _⟩
  | cons item pattern ih =>
      obtain ⟨normApart, manyApart⟩ := ih
      cases item with
      | many => exact ⟨manyApart, manyApart⟩
      | one =>
          exact ⟨normApart.cons (by simp), manyApart.cons (by simp)⟩
      | lit a =>
          refine ⟨normApart.cons (by simp), ?_⟩
          rw [normMany_lit]
          unfold ManyApart
          rw [List.isChain_cons_cons]
          exact ⟨by simp, normApart.cons (by simp)⟩

omit [DecidableEq α] in
theorem manyApart_norm (pattern : List (Glob α)) : ManyApart (norm pattern) :=
  (manyApart_norm_normMany pattern).1

omit [DecidableEq α] in
/-- No `many` right after a `many`. -/
theorem ManyApart.not_many_after {front rest : List (Glob α)} {item : Glob α}
    (apart : ManyApart (front ++ many :: item :: rest)) : item ≠ many := by
  unfold ManyApart at apart
  rw [List.isChain_append_cons_cons] at apart
  exact fun isMany => apart.2.1 ⟨rfl, isMany⟩

/-- What follows a `many` is a literal: neither `many` nor `one`. -/
def LitAfterMany (pattern : List (Glob α)) : Prop :=
  pattern.IsChain fun item next => item = many → next ≠ many ∧ next ≠ one

omit [DecidableEq α] in
/-- An item other than `many` may stand before anything here too. -/
theorem LitAfterMany.cons {item : Glob α} {pattern : List (Glob α)} (notMany : item ≠ many)
    (separated : LitAfterMany pattern) : LitAfterMany (item :: pattern) := by
  unfold LitAfterMany at separated ⊢
  rw [List.isChain_cons]
  exact ⟨fun _ _ isMany => absurd isMany notMany, separated⟩

omit [DecidableEq α] in
/-- `norm` leaves a literal after each `many` it writes: by induction on the
pattern, the two rewritings together. -/
theorem litAfterMany_norm_normMany (pattern : List (Glob α)) :
    LitAfterMany (norm pattern) ∧ LitAfterMany (normMany pattern) := by
  induction pattern with
  | nil => exact ⟨List.IsChain.nil, List.isChain_singleton _⟩
  | cons item pattern ih =>
      obtain ⟨normSeparated, manySeparated⟩ := ih
      cases item with
      | many => exact ⟨manySeparated, manySeparated⟩
      | one => exact ⟨normSeparated.cons (by simp), manySeparated.cons (by simp)⟩
      | lit a =>
          refine ⟨normSeparated.cons (by simp), ?_⟩
          -- the `many` of the run is written just before the literal
          rw [normMany_lit]
          unfold LitAfterMany
          rw [List.isChain_cons_cons]
          exact ⟨fun _ => ⟨by simp, by simp⟩, normSeparated.cons (by simp)⟩

omit [DecidableEq α] in
theorem litAfterMany_norm (pattern : List (Glob α)) : LitAfterMany (norm pattern) :=
  (litAfterMany_norm_normMany pattern).1

example : accepts [lit 1, many, lit 2] [1, 5, 6, 2] = true := by decide

example : norm [many, one, many, lit 3] = [one, many, lit 3] := by decide

end Glob

end DispatchRouter.Math
