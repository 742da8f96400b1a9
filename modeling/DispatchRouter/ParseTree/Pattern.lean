/-
# Patterns and addresses as tokens

`parse_tree.c`'s token iterator, `normalize_pattern`,
`qd_parse_tree_validate_pattern` and `generate_hkey`. A string is a C string:
the octets before its terminating zero.

The iterator is modelled by the tokens it gives in turn: the code that walks it
looks only at the current token, at whether one is left, and at the next.
`normalize_pattern` rewrites the string in place through the iterator's
pointers; on the string cut into tokens and the separators after them
(`segments`) the rewriting is a list function, `normSegments`, and `segments`
reads the rewritten string back. Its tokens are then those of `Glob.norm`.
-/

import DispatchRouter.Math.Glob
import DispatchRouter.Math.Hex
import DispatchRouter.Hash.Table

namespace DispatchRouter.ParseTree

open Math
open Amqp (CString)

/-- `qd_parse_tree_type_t`. -/
inductive ParseTreeType
  | address
  | amqp010
  | mqtt
  deriving DecidableEq, Repr

namespace ParseTreeType

/-- The separators `token_iterator_init` sets: `./`, `.` or `/`. -/
def separators : ParseTreeType → List UInt8
  | address => [46, 47]
  | amqp010 => [46]
  | mqtt => [47]

/-- The match-one wildcard: `*`, or `+` in MQTT. -/
def match1 : ParseTreeType → UInt8
  | mqtt => 43
  | _ => 42

/-- The match-glob wildcard `#`. -/
def matchGlob (_ : ParseTreeType) : UInt8 := 35

theorem matchGlob_not_separator (type : ParseTreeType) : type.matchGlob ∉ type.separators := by
  cases type <;> decide

theorem match1_not_separator (type : ParseTreeType) : type.match1 ∉ type.separators := by
  cases type <;> decide

theorem match1_ne_matchGlob (type : ParseTreeType) : type.match1 ≠ type.matchGlob := by
  cases type <;> decide

theorem zero_not_separator (type : ParseTreeType) : (0 : UInt8) ∉ type.separators := by
  cases type <;> decide

end ParseTreeType

/-! ### Cutting a string at its separators -/

/-- A token and the separator after it; the last token has none, unless the
string ends in a separator. -/
abbrev Segment := List UInt8 × Option UInt8

/-- A string cut at its separators. -/
def segments (separators : List UInt8) : List UInt8 → List Segment
  | [] => []
  | c :: rest =>
      if c ∈ separators then ([], some c) :: segments separators rest
      else
        match segments separators rest with
        | [] => [([c], none)]
        | (token, after) :: more => (c :: token, after) :: more

@[simp] theorem segments_nil (separators : List UInt8) : segments separators [] = [] := rfl

theorem segments_cons (separators : List UInt8) (c : UInt8) (rest : List UInt8) :
    segments separators (c :: rest) =
      if c ∈ separators then ([], some c) :: segments separators rest
      else
        match segments separators rest with
        | [] => [([c], none)]
        | (token, after) :: more => (c :: token, after) :: more := rfl

/-- The string again. -/
def unsegment (pieces : List Segment) : List UInt8 :=
  pieces.flatMap fun piece => piece.1 ++ piece.2.toList

/-- The segments `segments` gives: no separator in a token, a separator after
every token but the last, and a last token that is not empty unless a
separator follows it. -/
def Valid (separators : List UInt8) : List Segment → Prop
  | [] => True
  | [(token, after)] =>
      (∀ c ∈ token, c ∉ separators) ∧ (∀ s ∈ after, s ∈ separators) ∧ (token ≠ [] ∨ after ≠ none)
  | (token, after) :: next :: more =>
      (∀ c ∈ token, c ∉ separators) ∧ (∃ s ∈ separators, after = some s) ∧
        Valid separators (next :: more)

/-- The first token, if any, is not empty. -/
def Leading (pieces : List Segment) : Prop :=
  ∀ first ∈ pieces.head?, first.1 ≠ []

section Segments

variable {separators : List UInt8}

section ValidCons

variable {token : List UInt8} {after : Option UInt8} {rest : List Segment}

theorem Valid.noSeparator (valid : Valid separators ((token, after) :: rest)) :
    ∀ c ∈ token, c ∉ separators := by
  cases rest with
  | nil => exact valid.1
  | cons _ _ => exact valid.1

theorem Valid.afterSeparator (valid : Valid separators ((token, after) :: rest)) :
    ∀ s ∈ after, s ∈ separators := by
  cases rest with
  | nil => exact valid.2.1
  | cons _ _ =>
      obtain ⟨s, isSeparator, rfl⟩ := valid.2.1
      simpa using isSeparator

theorem Valid.separated (valid : Valid separators ((token, after) :: rest)) (more : rest ≠ []) :
    after ≠ none := by
  cases rest with
  | nil => exact absurd rfl more
  | cons _ _ =>
      obtain ⟨s, _, rfl⟩ := valid.2.1
      simp

theorem Valid.last (valid : Valid separators ((token, after) :: rest)) (last : rest = []) :
    token ≠ [] ∨ after ≠ none := by
  subst last
  exact valid.2.2

theorem Valid.tail (valid : Valid separators ((token, after) :: rest)) : Valid separators rest := by
  cases rest with
  | nil => trivial
  | cons _ _ => exact valid.2.2

theorem valid_cons (noSeparator : ∀ c ∈ token, c ∉ separators)
    (afterSeparator : ∀ s ∈ after, s ∈ separators) (separated : rest ≠ [] → after ≠ none)
    (last : rest = [] → token ≠ [] ∨ after ≠ none) (validRest : Valid separators rest) :
    Valid separators ((token, after) :: rest) := by
  cases rest with
  | nil => exact ⟨noSeparator, afterSeparator, last rfl⟩
  | cons next more =>
      refine ⟨noSeparator, ?_, validRest⟩
      cases after with
      | none => exact absurd rfl (separated (by simp))
      | some s => exact ⟨s, afterSeparator s rfl, rfl⟩

end ValidCons

theorem segments_separator {s : UInt8} (isSeparator : s ∈ separators) (rest : List UInt8) :
    segments separators (s :: rest) = ([], some s) :: segments separators rest := by
  rw [segments_cons, if_pos isSeparator]

/-- A token, then a separator: the token is one segment. -/
theorem segments_token_separator {token : List UInt8} (noSeparator : ∀ c ∈ token, c ∉ separators)
    {s : UInt8} (isSeparator : s ∈ separators) (rest : List UInt8) :
    segments separators (token ++ s :: rest) = (token, some s) :: segments separators rest := by
  induction token with
  | nil => exact segments_separator isSeparator rest
  | cons c token ih =>
      have notSeparator : c ∉ separators := noSeparator c List.mem_cons_self
      rw [List.cons_append, segments_cons, if_neg notSeparator,
        ih fun d inToken => noSeparator d (List.mem_cons_of_mem c inToken)]

/-- A token at the end: one segment with no separator. -/
theorem segments_last_token {token : List UInt8} (noSeparator : ∀ c ∈ token, c ∉ separators)
    (nonempty : token ≠ []) : segments separators token = [(token, none)] := by
  induction token with
  | nil => exact absurd rfl nonempty
  | cons c token ih =>
      have notSeparator : c ∉ separators := noSeparator c List.mem_cons_self
      cases token with
      | nil => simp [segments_cons, notSeparator]
      | cons d token =>
          rw [segments_cons, if_neg notSeparator,
            ih (fun e inToken => noSeparator e (List.mem_cons_of_mem c inToken)) (by simp)]

/-- `segments` reads `unsegment` back. -/
theorem segments_unsegment {pieces : List Segment} (valid : Valid separators pieces) :
    segments separators (unsegment pieces) = pieces := by
  induction pieces with
  | nil => rfl
  | cons piece rest ih =>
      obtain ⟨token, after⟩ := piece
      cases rest with
      | nil =>
          obtain ⟨noSeparator, afterSeparator, nonempty⟩ := valid
          cases after with
          | none =>
              simp only [unsegment, List.flatMap_cons, List.flatMap_nil, Option.toList_none,
                List.append_nil]
              exact segments_last_token noSeparator (nonempty.resolve_right (by simp))
          | some s =>
              simp only [unsegment, List.flatMap_cons, List.flatMap_nil, Option.toList_some,
                List.append_nil]
              rw [segments_token_separator noSeparator (afterSeparator s rfl) []]
              rfl
      | cons next more =>
          obtain ⟨noSeparator, ⟨s, isSeparator, rfl⟩, validRest⟩ := valid
          have unfolded : unsegment ((token, some s) :: next :: more) =
              token ++ s :: unsegment (next :: more) := by
            simp [unsegment]
          rw [unfolded, segments_token_separator noSeparator isSeparator, ih validRest]

/-- The head of a segment list, with a first octet put in front of its token. -/
theorem valid_cons_token {c : UInt8} (notSeparator : c ∉ separators) {token : List UInt8}
    {after : Option UInt8} {more : List Segment} (valid : Valid separators ((token, after) :: more)) :
    Valid separators ((c :: token, after) :: more) := by
  cases more with
  | nil =>
      obtain ⟨noSeparator, afterSeparator, _⟩ := valid
      refine ⟨?_, afterSeparator, Or.inl (by simp)⟩
      intro d inToken
      rcases List.mem_cons.mp inToken with rfl | inRest
      · exact notSeparator
      · exact noSeparator d inRest
  | cons next more =>
      obtain ⟨noSeparator, afterSeparator, validRest⟩ := valid
      refine ⟨?_, afterSeparator, validRest⟩
      intro d inToken
      rcases List.mem_cons.mp inToken with rfl | inRest
      · exact notSeparator
      · exact noSeparator d inRest

/-- Every string cuts into valid segments: by induction on the string. -/
theorem valid_segments (text : List UInt8) : Valid separators (segments separators text) := by
  induction text with
  | nil => trivial
  | cons c rest ih =>
      by_cases isSeparator : c ∈ separators
      · rw [segments_separator isSeparator]
        cases pieces : segments separators rest with
        | nil => exact ⟨by simp, by simpa using isSeparator, Or.inr (by simp)⟩
        | cons next more =>
            rw [pieces] at ih
            exact ⟨by simp, ⟨c, isSeparator, rfl⟩, ih⟩
      · simp only [segments_cons, if_neg isSeparator]
        cases pieces : segments separators rest with
        | nil => exact ⟨by simpa using isSeparator, by simp, Or.inl (by simp)⟩
        | cons piece more =>
            rw [pieces] at ih
            exact valid_cons_token isSeparator ih

/-- A string that does not start with a separator has a first token. -/
theorem leading_segments {c : UInt8} (notSeparator : c ∉ separators) (rest : List UInt8) :
    Leading (segments separators (c :: rest)) := by
  simp only [Leading, segments_cons, if_neg notSeparator]
  cases segments separators rest with
  | nil => simp
  | cons piece more => simp

/-- Every octet of a token is an octet of the string. -/
theorem mem_of_mem_segments {text : List UInt8} {piece : Segment} {c : UInt8}
    (inPieces : piece ∈ segments separators text) (inToken : c ∈ piece.1) : c ∈ text := by
  induction text generalizing piece with
  | nil => simp at inPieces
  | cons d rest ih =>
      by_cases isSeparator : d ∈ separators
      · rw [segments_separator isSeparator] at inPieces
        rcases List.mem_cons.mp inPieces with rfl | inRest
        · simp at inToken
        · exact List.mem_cons_of_mem d (ih inRest inToken)
      · simp only [segments_cons, if_neg isSeparator] at inPieces
        cases pieces : segments separators rest with
        | nil =>
            rw [pieces] at inPieces
            simp only [List.mem_singleton] at inPieces
            subst inPieces
            simp only [List.mem_singleton] at inToken
            rw [inToken]
            exact List.mem_cons_self
        | cons first more =>
            rw [pieces] at inPieces ih
            rcases List.mem_cons.mp inPieces with rfl | inMore
            · rcases List.mem_cons.mp inToken with rfl | inFirst
              · exact List.mem_cons_self
              · exact List.mem_cons_of_mem _ (ih List.mem_cons_self inFirst)
            · exact List.mem_cons_of_mem d (ih (List.mem_cons_of_mem first inMore) inToken)

/-- Cutting a string and putting it together again gives the string back. -/
theorem unsegment_segments (text : List UInt8) : unsegment (segments separators text) = text := by
  induction text with
  | nil => rfl
  | cons c rest ih =>
      by_cases isSeparator : c ∈ separators
      · rw [segments_separator isSeparator]
        simp only [unsegment, List.flatMap_cons] at ih ⊢
        rw [ih]
        rfl
      · simp only [segments_cons, if_neg isSeparator]
        cases pieces : segments separators rest with
        | nil =>
            rw [pieces] at ih
            simp only [unsegment, List.flatMap_nil] at ih
            simp [unsegment, ← ih]
        | cons piece more =>
            rw [pieces] at ih
            simp only [unsegment, List.flatMap_cons] at ih ⊢
            rw [← ih]
            rfl

end Segments

/-! ### The token iterator -/

/-- `token_iterator_init`: leading separators skipped, the iterator as the
tokens it gives in turn; `token_iterator_next` drops the first and
`token_iterator_done` holds when none is left. -/
def tokenIteratorInit (type : ParseTreeType) (text : List UInt8) : List (List UInt8) :=
  (segments type.separators (text.dropWhile (· ∈ type.separators))).map (·.1)

/-- `token_iterator_is_match_1` on a token. -/
def isMatch1 (type : ParseTreeType) (token : List UInt8) : Bool :=
  token == [type.match1]

/-- `token_iterator_is_match_glob` on a token. -/
def isMatchGlob (type : ParseTreeType) (token : List UInt8) : Bool :=
  token == [type.matchGlob]

/-- A token read as a pattern item. -/
def globOf (type : ParseTreeType) (token : List UInt8) : Glob (List UInt8) :=
  if isMatch1 type token then .one else if isMatchGlob type token then .many else .lit token

/-- The items of a pattern, token by token. -/
def patternGlobs (type : ParseTreeType) (pattern : List UInt8) : List (Glob (List UInt8)) :=
  (tokenIteratorInit type pattern).map (globOf type)

theorem mem_of_mem_tokenIteratorInit {type : ParseTreeType} {text token : List UInt8} {c : UInt8}
    (inTokens : token ∈ tokenIteratorInit type text) (inToken : c ∈ token) : c ∈ text := by
  obtain ⟨piece, inPieces, rfl⟩ := List.mem_map.mp inTokens
  exact (List.dropWhile_suffix _).subset (mem_of_mem_segments inPieces inToken)

/-- A C string's tokens hold no zero octet. -/
theorem zero_not_mem_token {type : ParseTreeType} {text token : List UInt8} (noNul : 0 ∉ text)
    (inTokens : token ∈ tokenIteratorInit type text) : 0 ∉ token :=
  fun inToken => noNul (mem_of_mem_tokenIteratorInit inTokens inToken)

/-! ### Normalization -/

mutual

/-- The loop of `normalize_pattern` at a token: a `#` is popped and what
follows it looked at; any other token is stepped over. -/
def normSegments (type : ParseTreeType) : List Segment → List Segment
  | [] => []
  | (token, after) :: rest =>
      if token = [type.matchGlob] then normAfterGlob type after rest
      else (token, after) :: normSegments type rest

/-- After a popped `#` with the separator `after`: `#.#` becomes `#` and
`#.*` becomes `*.#`, and the loop goes on at the `#`; after any other token it
goes on past that token. -/
def normAfterGlob (type : ParseTreeType) (after : Option UInt8) : List Segment → List Segment
  | [] => [([type.matchGlob], after)]
  | (token, next) :: rest =>
      if token = [type.matchGlob] then normAfterGlob type next rest
      else if token = [type.match1] then ([type.match1], after) :: normAfterGlob type next rest
      else ([type.matchGlob], after) :: (token, next) :: normSegments type rest

end

/-- `normalize_pattern`: `#.*` to `*.#` and `#.#` to `#`, except in MQTT
patterns, where `#` may only come last. The leading separators stay. -/
def normalizePattern (type : ParseTreeType) (pattern : List UInt8) : List UInt8 :=
  if type = .mqtt then pattern
  else
    pattern.takeWhile (· ∈ type.separators) ++
      unsegment (normSegments type (segments type.separators (pattern.dropWhile (· ∈ type.separators))))

section Normalize

variable {type : ParseTreeType}

@[simp] theorem normSegments_nil : normSegments type [] = [] := rfl

theorem normSegments_cons (token : List UInt8) (after : Option UInt8) (rest : List Segment) :
    normSegments type ((token, after) :: rest) =
      if token = [type.matchGlob] then normAfterGlob type after rest
      else (token, after) :: normSegments type rest := rfl

@[simp] theorem normAfterGlob_nil (after : Option UInt8) :
    normAfterGlob type after [] = [([type.matchGlob], after)] := rfl

theorem normAfterGlob_cons (after : Option UInt8) (token : List UInt8) (next : Option UInt8)
    (rest : List Segment) :
    normAfterGlob type after ((token, next) :: rest) =
      if token = [type.matchGlob] then normAfterGlob type next rest
      else if token = [type.match1] then ([type.match1], after) :: normAfterGlob type next rest
      else ([type.matchGlob], after) :: (token, next) :: normSegments type rest := rfl

theorem globOf_match1 : globOf type [type.match1] = .one := by
  cases type <;> decide

theorem globOf_matchGlob : globOf type [type.matchGlob] = .many := by
  cases type <;> decide

theorem globOf_lit {token : List UInt8} (notOne : token ≠ [type.match1])
    (notMany : token ≠ [type.matchGlob]) : globOf type token = .lit token := by
  simp [globOf, isMatch1, isMatchGlob, notOne, notMany]

/-- The items of the rewritten segments are those `Glob.norm` gives: by
induction on the segments, the two loops together. -/
theorem globs_normSegments (pieces : List Segment) :
    (normSegments type pieces).map (globOf type ∘ (·.1)) = Glob.norm (pieces.map (globOf type ∘ (·.1))) ∧
      ∀ after, (normAfterGlob type after pieces).map (globOf type ∘ (·.1)) =
        Glob.normMany (pieces.map (globOf type ∘ (·.1))) := by
  induction pieces with
  | nil => exact ⟨rfl, fun after => by simp [globOf_matchGlob]⟩
  | cons piece rest ih =>
      obtain ⟨token, next⟩ := piece
      obtain ⟨normSame, manySame⟩ := ih
      refine ⟨?_, fun after => ?_⟩
      · rw [normSegments_cons]
        split_ifs with isGlob
        · subst isGlob
          simp [globOf_matchGlob, manySame]
        · by_cases isOne : token = [type.match1]
          · subst isOne
            simp [globOf_match1, normSame]
          · simp [globOf_lit isOne isGlob, normSame]
      · rw [normAfterGlob_cons]
        split_ifs with isGlob isOne
        · subst isGlob
          simp [globOf_matchGlob, manySame]
        · subst isOne
          simp [globOf_match1, manySame]
        · simp [globOf_lit isOne isGlob, globOf_matchGlob, normSame]

theorem normAfterGlob_ne_nil (after : Option UInt8) (pieces : List Segment) :
    normAfterGlob type after pieces ≠ [] := by
  induction pieces generalizing after with
  | nil => simp
  | cons piece rest ih =>
      obtain ⟨token, next⟩ := piece
      rw [normAfterGlob_cons]
      split_ifs
      · exact ih next
      · simp
      · simp

theorem normSegments_eq_nil_iff {pieces : List Segment} : normSegments type pieces = [] ↔ pieces = [] := by
  cases pieces with
  | nil => simp
  | cons piece rest =>
      obtain ⟨token, after⟩ := piece
      rw [normSegments_cons]
      split_ifs
      · simpa using normAfterGlob_ne_nil after rest
      · simp

theorem matchGlob_token_ok : ∀ c ∈ [type.matchGlob], c ∉ type.separators := by
  simpa using type.matchGlob_not_separator

theorem match1_token_ok : ∀ c ∈ [type.match1], c ∉ type.separators := by
  simpa using type.match1_not_separator

/-- The rewriting keeps segments valid: by induction on the segments, the two
loops together. -/
theorem valid_normSegments_normAfterGlob (pieces : List Segment)
    (valid : Valid type.separators pieces) :
    Valid type.separators (normSegments type pieces) ∧
      ∀ after, (∀ s ∈ after, s ∈ type.separators) → (pieces ≠ [] → after ≠ none) →
        Valid type.separators (normAfterGlob type after pieces) := by
  induction pieces with
  | nil =>
      refine ⟨trivial, fun after afterSeparator _ => ?_⟩
      rw [normAfterGlob_nil]
      exact ⟨matchGlob_token_ok, afterSeparator, Or.inl (by simp)⟩
  | cons piece rest ih =>
      obtain ⟨token, next⟩ := piece
      obtain ⟨normValid, afterValid⟩ := ih valid.tail
      -- the token stepped over keeps its separator; the rest is rewritten
      have kept : Valid type.separators ((token, next) :: normSegments type rest) :=
        valid_cons valid.noSeparator valid.afterSeparator
          (fun more => valid.separated (mt normSegments_eq_nil_iff.mpr more))
          (fun none => valid.last (normSegments_eq_nil_iff.mp none)) normValid
      refine ⟨?_, fun after afterSeparator separated => ?_⟩
      · rw [normSegments_cons]
        split_ifs
        · exact afterValid next valid.afterSeparator valid.separated
        · exact kept
      · have someAfter : after ≠ none := separated (by simp)
        rw [normAfterGlob_cons]
        split_ifs
        · exact afterValid next valid.afterSeparator valid.separated
        · exact valid_cons match1_token_ok afterSeparator (fun _ => someAfter) (fun _ => Or.inl (by simp))
            (afterValid next valid.afterSeparator valid.separated)
        · exact valid_cons matchGlob_token_ok afterSeparator (fun _ => someAfter)
            (fun _ => Or.inl (by simp)) kept

theorem leading_normAfterGlob (after : Option UInt8) (pieces : List Segment) :
    Leading (normAfterGlob type after pieces) := by
  induction pieces generalizing after with
  | nil => simp [Leading]
  | cons piece rest ih =>
      obtain ⟨token, next⟩ := piece
      rw [normAfterGlob_cons]
      split_ifs
      · exact ih next
      · simp [Leading]
      · simp [Leading]

theorem leading_normSegments {pieces : List Segment} (leading : Leading pieces) :
    Leading (normSegments type pieces) := by
  cases pieces with
  | nil => simp [Leading]
  | cons piece rest =>
      obtain ⟨token, after⟩ := piece
      rw [normSegments_cons]
      split_ifs
      · exact leading_normAfterGlob after rest
      · simpa [Leading] using leading

/-- What the iterator skips of a string whose first token is not empty and
holds no separator: nothing. -/
theorem dropWhile_unsegment {pieces : List Segment} (valid : Valid type.separators pieces)
    (leading : Leading pieces) :
    (unsegment pieces).dropWhile (· ∈ type.separators) = unsegment pieces := by
  cases pieces with
  | nil => rfl
  | cons piece rest =>
      obtain ⟨token, after⟩ := piece
      cases token with
      | nil => exact absurd rfl (leading _ rfl)
      | cons c token =>
          have notSeparator : c ∉ type.separators := valid.noSeparator c List.mem_cons_self
          simp only [unsegment, List.flatMap_cons, List.cons_append]
          exact List.dropWhile_cons_of_neg (by simpa using notSeparator)

/-- Past its leading separators a pattern's rewritten segments are valid and
start with a token. -/
theorem valid_leading_normSegments (pattern : List UInt8) :
    Valid type.separators (normSegments type (segments type.separators (pattern.dropWhile (· ∈ type.separators)))) ∧
      Leading (normSegments type (segments type.separators (pattern.dropWhile (· ∈ type.separators)))) := by
  set rest := pattern.dropWhile (· ∈ type.separators) with restDef
  have validRest : Valid type.separators (segments type.separators rest) := valid_segments rest
  refine ⟨(valid_normSegments_normAfterGlob _ validRest).1, ?_⟩
  cases text : rest with
  | nil => simp [Leading]
  | cons c more =>
      have notSeparator : c ∉ type.separators := by
        have first := @List.head_dropWhile_not _ (fun c => decide (c ∈ type.separators)) pattern
          (by rw [← restDef, text]; simp)
        simpa [← restDef, text] using first
      exact leading_normSegments (leading_segments notSeparator more)

/-- The leading separators of a pattern are all separators. -/
theorem dropWhile_takeWhile_separators (pattern : List UInt8) :
    (pattern.takeWhile (· ∈ type.separators)).dropWhile (· ∈ type.separators) = [] := by
  rw [List.dropWhile_eq_nil_iff]
  intro c inLead
  exact List.mem_takeWhile_imp (p := fun c => decide (c ∈ type.separators)) inLead

/-- Past its leading separators a normalized pattern is its rewritten segments. -/
theorem dropWhile_normalizePattern (notMqtt : type ≠ .mqtt) (pattern : List UInt8) :
    (normalizePattern type pattern).dropWhile (· ∈ type.separators) =
      unsegment (normSegments type (segments type.separators (pattern.dropWhile (· ∈ type.separators)))) := by
  obtain ⟨valid, leading⟩ := @valid_leading_normSegments type pattern
  unfold normalizePattern
  rw [if_neg notMqtt, List.dropWhile_append, dropWhile_takeWhile_separators, List.isEmpty_nil, if_pos rfl,
    dropWhile_unsegment valid leading]

/-- The tokens of a normalized pattern are the rewritten segments' tokens. -/
theorem tokenIteratorInit_normalizePattern (notMqtt : type ≠ .mqtt) (pattern : List UInt8) :
    tokenIteratorInit type (normalizePattern type pattern) =
      (normSegments type (segments type.separators
        (pattern.dropWhile (· ∈ type.separators)))).map (·.1) := by
  unfold tokenIteratorInit
  rw [dropWhile_normalizePattern notMqtt, segments_unsegment (valid_leading_normSegments pattern).1]

/-- The items of a normalized pattern are `Glob.norm` of the pattern's items. -/
theorem patternGlobs_normalizePattern (notMqtt : type ≠ .mqtt) (pattern : List UInt8) :
    patternGlobs type (normalizePattern type pattern) = Glob.norm (patternGlobs type pattern) := by
  unfold patternGlobs
  rw [tokenIteratorInit_normalizePattern notMqtt, List.map_map]
  unfold tokenIteratorInit
  rw [List.map_map]
  exact (globs_normSegments _).1

/-- The octets of the rewritten segments are those of the segments, or a
wildcard: by induction on the segments, the two loops together. -/
theorem mem_unsegment_normSegments {c : UInt8} (pieces : List Segment) :
    (c ∈ unsegment (normSegments type pieces) → c ∈ unsegment pieces ∨ c = type.matchGlob ∨
        c = type.match1) ∧
      ∀ after, c ∈ unsegment (normAfterGlob type after pieces) →
        c ∈ unsegment pieces ∨ c ∈ after ∨ c = type.matchGlob ∨ c = type.match1 := by
  induction pieces with
  | nil =>
      refine ⟨by simp [unsegment], fun after inNorm => ?_⟩
      simp only [normAfterGlob_nil, unsegment, List.flatMap_cons, List.flatMap_nil, List.append_nil,
        List.singleton_append, List.mem_cons] at inNorm
      rcases inNorm with isGlob | inAfter
      · exact Or.inr (Or.inr (Or.inl isGlob))
      · exact Or.inr (Or.inl (by simpa using inAfter))
  | cons piece rest ih =>
      obtain ⟨token, next⟩ := piece
      obtain ⟨normMem, afterMem⟩ := ih
      have unfold (pieces : List Segment) (token : List UInt8) (after : Option UInt8) :
          unsegment ((token, after) :: pieces) = token ++ after.toList ++ unsegment pieces := by
        simp [unsegment]
      -- an octet of the rest, or of the first segment, is an octet of the segments
      have inRest : c ∈ unsegment rest → c ∈ unsegment ((token, next) :: rest) := by
        intro inRest
        rw [unfold]
        exact List.mem_append_right _ inRest
      have inNext : c ∈ next → c ∈ unsegment ((token, next) :: rest) := by
        intro inNext
        rw [unfold]
        exact List.mem_append_left _ (List.mem_append_right _ (by simpa using inNext))
      have inToken : c ∈ token → c ∈ unsegment ((token, next) :: rest) := by
        intro inToken
        rw [unfold]
        exact List.mem_append_left _ (List.mem_append_left _ inToken)
      refine ⟨fun inNorm => ?_, fun after inNorm => ?_⟩
      · rw [normSegments_cons] at inNorm
        split_ifs at inNorm
        · rcases afterMem next inNorm with old | isNext | isGlob | isOne
          · exact Or.inl (inRest old)
          · exact Or.inl (inNext isNext)
          · exact Or.inr (Or.inl isGlob)
          · exact Or.inr (Or.inr isOne)
        · rw [unfold] at inNorm
          rcases List.mem_append.mp inNorm with front | later
          · rw [unfold]
            exact Or.inl (List.mem_append_left _ front)
          · rcases normMem later with old | isGlob | isOne
            · exact Or.inl (inRest old)
            · exact Or.inr (Or.inl isGlob)
            · exact Or.inr (Or.inr isOne)
      · rw [normAfterGlob_cons] at inNorm
        split_ifs at inNorm
        · rcases afterMem next inNorm with old | isNext | isGlob | isOne
          · exact Or.inl (inRest old)
          · exact Or.inl (inNext isNext)
          · exact Or.inr (Or.inr (Or.inl isGlob))
          · exact Or.inr (Or.inr (Or.inr isOne))
        · rw [unfold] at inNorm
          rcases List.mem_append.mp inNorm with front | later
          · rcases List.mem_append.mp front with isOne | inAfter
            · exact Or.inr (Or.inr (Or.inr (by simpa using isOne)))
            · exact Or.inr (Or.inl (by simpa using inAfter))
          · rcases afterMem next later with old | isNext | isGlob | isOne
            · exact Or.inl (inRest old)
            · exact Or.inl (inNext isNext)
            · exact Or.inr (Or.inr (Or.inl isGlob))
            · exact Or.inr (Or.inr (Or.inr isOne))
        · rw [unfold, unfold] at inNorm
          rcases List.mem_append.mp inNorm with front | later
          · rcases List.mem_append.mp front with isGlob | inAfter
            · exact Or.inr (Or.inr (Or.inl (by simpa using isGlob)))
            · exact Or.inr (Or.inl (by simpa using inAfter))
          · rcases List.mem_append.mp later with front | latest
            · exact Or.inl (by rw [unfold]; exact List.mem_append_left _ front)
            · rcases normMem latest with old | isGlob | isOne
              · exact Or.inl (inRest old)
              · exact Or.inr (Or.inr (Or.inl isGlob))
              · exact Or.inr (Or.inr (Or.inr isOne))

/-- Normalizing a C string gives a C string. -/
theorem zero_not_mem_normalizePattern {pattern : List UInt8} (noNul : 0 ∉ pattern) :
    0 ∉ normalizePattern type pattern := by
  unfold normalizePattern
  split_ifs
  · exact noNul
  · intro inNormal
    rcases List.mem_append.mp inNormal with inLead | inRest
    · exact noNul ((List.takeWhile_prefix _).subset inLead)
    · rcases (mem_unsegment_normSegments _).1 inRest with old | isGlob | isOne
      · rw [unsegment_segments] at old
        exact noNul ((List.dropWhile_suffix _).subset old)
      · exact absurd isGlob (by cases type <;> decide)
      · exact absurd isOne (by cases type <;> decide)

/-- Outside MQTT, a normalized pattern never has `#` right after `#`. -/
theorem manyApart_normalizePattern (notMqtt : type ≠ .mqtt) (pattern : List UInt8) :
    Glob.ManyApart (patternGlobs type (normalizePattern type pattern)) := by
  rw [patternGlobs_normalizePattern notMqtt]
  exact Glob.manyApart_norm _

/-- Outside MQTT a normalized pattern has no `#` token followed by a `#` or a
`*` token. -/
theorem separated_normalizePattern (notMqtt : type ≠ .mqtt) (pattern : List UInt8) :
    (tokenIteratorInit type (normalizePattern type pattern)).IsChain
      fun token next => token = [type.matchGlob] → next ≠ [type.matchGlob] ∧ next ≠ [type.match1] := by
  have separated := Glob.litAfterMany_norm (patternGlobs type pattern)
  rw [← patternGlobs_normalizePattern notMqtt, Glob.LitAfterMany, patternGlobs, List.isChain_map] at separated
  refine separated.imp fun token next apart isGlob => ?_
  have ⟨notMany, notOne⟩ := apart (by rw [isGlob, globOf_matchGlob])
  exact ⟨fun isMany => notMany (by rw [isMany, globOf_matchGlob]),
    fun isOne => notOne (by rw [isOne, globOf_match1])⟩

/-- Segments with no `#` token before a `#` or a `*` token are left as they
are: by recursion on the segments, a `#` and the token after it together. -/
theorem normSegments_of_separated :
    ∀ {pieces : List Segment}, (pieces.map (·.1)).IsChain
        (fun token next => token = [type.matchGlob] → next ≠ [type.matchGlob] ∧ next ≠ [type.match1]) →
      normSegments type pieces = pieces
  | [], _ => rfl
  | [(token, after)], _ => by
      rw [normSegments_cons]
      split_ifs with isGlob
      · rw [isGlob]
        rfl
      · rfl
  | (token, after) :: (next, afterNext) :: rest, separated => by
      rw [List.map_cons, List.map_cons, List.isChain_cons_cons] at separated
      obtain ⟨apart, separatedRest⟩ := separated
      have restSame := @normSegments_of_separated ((next, afterNext) :: rest) separatedRest
      rw [normSegments_cons]
      split_ifs with isGlob
      · -- a `#`, then a literal token: both stay, and so does the rest
        obtain ⟨notGlob, notOne⟩ := apart isGlob
        have tailSame := normSegments_of_separated separatedRest.tail
        rw [normAfterGlob_cons, if_neg notGlob, if_neg notOne, tailSame, isGlob]
      · rw [restSame]

/-- Outside MQTT a normalized pattern normalizes to itself. -/
theorem normalizePattern_normalizePattern (notMqtt : type ≠ .mqtt) (pattern : List UInt8) :
    normalizePattern type (normalizePattern type pattern) = normalizePattern type pattern := by
  obtain ⟨valid, leading⟩ := @valid_leading_normSegments type pattern
  have separated := separated_normalizePattern notMqtt pattern
  rw [tokenIteratorInit_normalizePattern notMqtt] at separated
  have rewritten : normalizePattern type pattern = pattern.takeWhile (· ∈ type.separators) ++
      unsegment (normSegments type (segments type.separators (pattern.dropWhile (· ∈ type.separators)))) :=
    if_neg notMqtt
  -- a normalized pattern starts with its leading separators, and no more
  have noMoreLead : (normalizePattern type pattern).takeWhile (· ∈ type.separators) =
      pattern.takeWhile (· ∈ type.separators) := by
    have split := List.takeWhile_append_dropWhile (p := fun c => decide (c ∈ type.separators))
      (l := unsegment (normSegments type (segments type.separators (pattern.dropWhile (· ∈ type.separators)))))
    rw [dropWhile_unsegment valid leading, List.append_left_eq_self] at split
    rw [rewritten, List.takeWhile_append_of_pos
        (fun c inLead => List.mem_takeWhile_imp (p := fun c => decide (c ∈ type.separators)) inLead), split,
      List.append_nil]
  have again : normalizePattern type (normalizePattern type pattern) =
      (normalizePattern type pattern).takeWhile (· ∈ type.separators) ++
        unsegment (normSegments type (segments type.separators
          ((normalizePattern type pattern).dropWhile (· ∈ type.separators)))) :=
    if_neg notMqtt
  rw [again, noMoreLead, dropWhile_normalizePattern notMqtt, segments_unsegment valid,
    normSegments_of_separated separated, rewritten]

end Normalize

/-- `normalize_pattern` outside MQTT: the pattern it gives matches the same
addresses, has no `#` token before a `#` or a `*` token, and is left alone by a
second pass. -/
theorem normalize_pattern_normal_form (type : ParseTreeType) (notMqtt : type ≠ .mqtt)
    (pattern : List UInt8) :
    (∀ address : List UInt8,
      Glob.accepts (patternGlobs type (normalizePattern type pattern)) (tokenIteratorInit type address) =
        Glob.accepts (patternGlobs type pattern) (tokenIteratorInit type address)) ∧
    (tokenIteratorInit type (normalizePattern type pattern)).IsChain
      (fun token next => token = [type.matchGlob] → next ≠ [type.matchGlob] ∧ next ≠ [type.match1]) ∧
    normalizePattern type (normalizePattern type pattern) = normalizePattern type pattern := by
  refine ⟨fun address => ?_, separated_normalizePattern notMqtt pattern,
    normalizePattern_normalizePattern notMqtt pattern⟩
  rw [patternGlobs_normalizePattern notMqtt, Glob.accepts_norm]

/-- `#.*.a` in an address tree. -/
theorem normalize_pattern_normal_form_address :
    ParseTreeType.address ≠ .mqtt ∧
      (∀ address : List UInt8,
        Glob.accepts (patternGlobs .address (normalizePattern .address [35, 46, 42, 46, 97]))
            (tokenIteratorInit .address address) =
          Glob.accepts (patternGlobs .address [35, 46, 42, 46, 97]) (tokenIteratorInit .address address)) ∧
      (tokenIteratorInit .address (normalizePattern .address [35, 46, 42, 46, 97])).IsChain
        (fun token next => token = [ParseTreeType.address.matchGlob] →
          next ≠ [ParseTreeType.address.matchGlob] ∧ next ≠ [ParseTreeType.address.match1]) ∧
      normalizePattern .address (normalizePattern .address [35, 46, 42, 46, 97]) =
        normalizePattern .address [35, 46, 42, 46, 97] :=
  ⟨by decide, normalize_pattern_normal_form .address (by decide) [35, 46, 42, 46, 97]⟩

/-- Normalizing `#.*.a` moves the `*` before the `#`. -/
example : normalizePattern .address [35, 46, 42, 46, 97] = [42, 46, 35, 46, 97] := by decide

/-! ### Validation and hash keys -/

/-- `qd_parse_tree_validate_pattern`: a pattern has a token, and in an MQTT
tree a `#` is its last token. -/
def validatePattern (type : ParseTreeType) (pattern : List UInt8) : Bool :=
  match tokenIteratorInit type pattern with
  | [] => false
  | tokens => if type = .mqtt then globLast tokens else true
where
  /-- The loop over an MQTT pattern's tokens: after a `#` none may follow. -/
  globLast : List (List UInt8) → Bool
    | [] => true
    | head :: rest => if head = [35] then rest.isEmpty else globLast rest

/-- A token other than `#` is no `#` item. -/
theorem globOf_ne_many {type : ParseTreeType} {token : List UInt8} (notGlob : token ≠ [type.matchGlob]) :
    globOf type token ≠ .many := by
  unfold globOf
  split_ifs with isOne isGlob
  · simp
  · simp [isMatchGlob, notGlob] at isGlob
  · simp

/-- An MQTT pattern that passes validation has its `#` last, so never two in a row. -/
theorem manyApart_of_validatePattern {pattern : List UInt8} (valid : validatePattern .mqtt pattern = true) :
    Glob.ManyApart (patternGlobs .mqtt (normalizePattern .mqtt pattern)) := by
  -- the loop over the tokens, by induction on them
  have globLast : ∀ tokens : List (List UInt8), validatePattern.globLast tokens = true →
      Glob.ManyApart (tokens.map (globOf .mqtt)) := by
    intro tokens
    induction tokens with
    | nil => exact fun _ => List.IsChain.nil
    | cons head rest ih =>
        intro last
        by_cases isGlob : head = [35]
        · rw [validatePattern.globLast, if_pos isGlob, List.isEmpty_iff] at last
          rw [last]
          exact List.isChain_singleton _
        · rw [validatePattern.globLast, if_neg isGlob] at last
          exact (ih last).cons (globOf_ne_many isGlob)
  unfold validatePattern at valid
  unfold patternGlobs normalizePattern
  rw [if_pos rfl]
  split at valid
  · cases valid
  · exact globLast _ (by simpa using valid)

theorem zero_not_mem_hkey (parentHkeyPrefix : UInt32) (token : List UInt8) :
    0 ∉ hexNumeral 8 parentHkeyPrefix.toNat ++ 47 :: token.takeWhile (· ≠ 0) := by
  intro inKey
  rcases List.mem_append.mp inKey with inPrefix | inRest
  · have range := hexNumeral_range inPrefix
    simp at range
  · rcases List.mem_cons.mp inRest with isSlash | inToken
    · exact absurd isSlash (by decide)
    · simpa using List.mem_takeWhile_imp inToken

/-- `generate_hkey`: the parent's prefix in upper-case hexadecimal, a slash and
the token (`"%X/%.*s"`, which stops at a zero octet). -/
def generateHkey (parentHkeyPrefix : UInt32) (token : List UInt8) : CString :=
  ⟨hexNumeral 8 parentHkeyPrefix.toNat ++ 47 :: token.takeWhile (· ≠ 0), zero_not_mem_hkey parentHkeyPrefix token⟩

/-- A key names its prefix and its token. -/
theorem generateHkey_inj {p q : UInt32} {token other : List UInt8} (tokenNoNul : 0 ∉ token)
    (otherNoNul : 0 ∉ other) (same : (generateHkey p token).octets = (generateHkey q other).octets) :
    p = q ∧ token = other := by
  have octets := same
  simp only [generateHkey] at octets
  have noSlash : ∀ n : UInt32, (47 : UInt8) ∉ hexNumeral 8 n.toNat := by
    intro n inPrefix
    have range := hexNumeral_range inPrefix
    simp at range
  obtain ⟨prefixes, tokens⟩ := append_cons_cancel (noSlash p) (noSlash q) octets
  have fits : ∀ n : UInt32, n.toNat < 16 ^ 8 := fun n => n.toNat_lt
  refine ⟨UInt32.toNat_inj.mp (hexNumeral_inj (fits p) (fits q) prefixes), ?_⟩
  rwa [List.takeWhile_eq_self_iff.mpr (fun c inToken => by simpa using ne_of_mem_of_not_mem inToken tokenNoNul),
    List.takeWhile_eq_self_iff.mpr (fun c inOther => by simpa using ne_of_mem_of_not_mem inOther otherNoNul)]
    at tokens

end DispatchRouter.ParseTree
