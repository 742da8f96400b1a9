/-
# What approval by pattern looks up

A compiled pattern list is its tuples' clauses joined by commas
(`compilePatternList_eq`). `qd_policy_parse_tree` reads them back and adds one
pattern for each, so the tree it builds finds a name exactly when one of those
patterns has a token and matches the name (`treeFinds`). The approval loop
reads the same tuples, and for each looks up the name its branch builds
(`tupleStep`) in that one tree: `qdPolicyApproveLinkNameTree_compile` says the
answer is the first found, tuple by tuple (`tupleAnswer`).

The name a tuple looks up is the proposed name rewritten, not the pattern
rewritten, and the tree holds the patterns of all the tuples. The user guide's
semantics (`documentedPatternAllows`) substitutes the username into each
pattern; `pattern_approval_not_substituted` gives three inputs where the two
differ.
-/

import DispatchRouter.Policy.LinkNameSpec
import DispatchRouter.Policy.LinkNameTree
import DispatchRouter.ParseTree.Machine

namespace DispatchRouter.Policy

open Math Math.CString Hash ParseTree

/-- A compiled tuple: control character, prefix field and suffix field. -/
abbrev Tuple := UInt8 × List UInt8 × List UInt8

/-! ### The tuples as text -/

/-- The tuples as `compile_app_settings` writes them: their clauses joined by
commas. -/
def tupleText (tuples : List Tuple) : List UInt8 :=
  [qpalnCommaSep].intercalate (tuples.map fun (code, s1, s2) => clauseText code s1 s2)

theorem tupleText_cons (code : UInt8) (s1 s2 : List UInt8) (tuples : List Tuple) :
    tupleText ((code, s1, s2) :: tuples) =
      clauseText code s1 s2 ++ if tuples = [] then [] else qpalnCommaSep :: tupleText tuples := by
  cases tuples with
  | nil => simp [tupleText]
  | cons tuple tuples => simp [tupleText, List.intercalate_cons_cons]

/-- Joining the fields with commas joins the clauses with commas. -/
theorem compilePatternList_eq {items : List (List UInt8)} {tuples : List Tuple}
    (compiled : items.mapM patternTuple = some tuples) : compilePatternList items = some (tupleText tuples) := by
  rw [compilePatternList, compiled, Option.map_some]
  congr 1
  clear compiled
  induction tuples with
  | nil => rfl
  | cons tuple tuples ih =>
      obtain ⟨code, s1, s2⟩ := tuple
      rw [tupleText_cons, ← ih]
      cases tuples with
      | nil => simp [clauseText]
      | cons next tuples => simp [clauseText, List.intercalate_cons_cons]

/-- Each clause has at least its control character and two commas. -/
theorem length_le_tupleText : ∀ tuples : List Tuple, tuples.length ≤ (tupleText tuples).length
  | [] => le_rfl
  | (code, s1, s2) :: tuples => by
      have rest := length_le_tupleText tuples
      rw [tupleText_cons]
      split
      · rename_i none
        subst none
        simp [clauseText]
      · simp [clauseText]
        omega

/-! ### The tuples the compiler writes -/

/-- What the readers need of a tuple: a control character of the compiler's
four, and fields with no comma and no zero octet. -/
def TupleClean : Tuple → Prop
  | (code, s1, s2) =>
      (code = userSubstIWildcard ∨ code = userSubstIAbsent ∨ code = userSubstIPrefix ∨ code = userSubstISuffix) ∧
        qpalnCommaSep ∉ s1 ∧ qpalnCommaSep ∉ s2 ∧ 0 ∉ s1 ∧ 0 ∉ s2

/-- The fields of an item's tuple are taken from the item. -/
theorem patternTuple_clean {v : List UInt8} {tuple : Tuple} (compiled : patternTuple v = some tuple)
    (noComma : qpalnCommaSep ∉ v) (noNul : 0 ∉ v) : TupleClean tuple := by
  have front : ∀ n, ∀ x ∈ v.take n, x ∈ v := fun n x member => List.mem_of_mem_take member
  have back : ∀ n, ∀ x ∈ v.drop n, x ∈ v := fun n x member => List.mem_of_mem_drop member
  unfold patternTuple at compiled
  split at compiled
  · split_ifs at compiled <;> cases compiled <;> simp_all [TupleClean]
  · split_ifs at compiled <;> cases compiled
    · exact ⟨by simp, by simp, fun member => noComma (back _ _ member), by simp, fun member => noNul (back _ _ member)⟩
    · exact ⟨by simp, fun member => noComma (front _ _ member), by simp, fun member => noNul (front _ _ member), by simp⟩
  · cases compiled

/-- Each tuple of a compiled list is the tuple of the item at its place. -/
theorem forall₂_of_mapM_patternTuple :
    ∀ {items : List (List UInt8)} {tuples : List Tuple}, items.mapM patternTuple = some tuples →
      List.Forall₂ (fun v tuple => patternTuple v = some tuple) items tuples
  | [], tuples, compiled => by
      cases compiled
      exact .nil
  | v :: items, tuples, compiled => by
      rw [List.mapM_cons] at compiled
      simp only [Option.bind_eq_bind, Option.bind_eq_some_iff, Option.pure_def, Option.some.injEq] at compiled
      obtain ⟨tuple, first, others, rest, rfl⟩ := compiled
      exact .cons first (forall₂_of_mapM_patternTuple rest)

/-- Every tuple of a compiled list is clean when its items are. -/
theorem mapM_patternTuple_clean {items : List (List UInt8)} {tuples : List Tuple}
    (compiled : items.mapM patternTuple = some tuples) (clean : ∀ v ∈ items, qpalnCommaSep ∉ v ∧ 0 ∉ v) :
    ∀ tuple ∈ tuples, TupleClean tuple := by
  have compiledEach := forall₂_of_mapM_patternTuple compiled
  clear compiled
  induction compiledEach with
  | nil => simp
  | @cons v tuple items tuples first _ ih =>
      intro t member
      rcases List.mem_cons.mp member with rfl | later
      · exact patternTuple_clean first (clean v List.mem_cons_self).1 (clean v List.mem_cons_self).2
      · exact ih (fun w inItems => clean w (List.mem_cons_of_mem _ inItems)) t later

/-- A clean tuple's clause is read back whole, and the reader goes on after
the comma that follows it. -/
theorem readTuple_tupleText_cons {code : UInt8} {s1 s2 : List UInt8} (tuples : List Tuple)
    (clean : TupleClean (code, s1, s2)) :
    readTuple (tupleText ((code, s1, s2) :: tuples)) = some (code, s1, s2, tupleText tuples) := by
  obtain ⟨known, clean1, clean2, -, -⟩ := clean
  have notComma : code ≠ qpalnCommaSep := by
    rcases known with rfl | rfl | rfl | rfl <;> decide
  -- what follows the clause: nothing, or a comma and the other clauses
  have next : (if tuples = [] then [] else qpalnCommaSep :: tupleText tuples) = [] ∨
      (if tuples = [] then [] else qpalnCommaSep :: tupleText tuples).head? = some qpalnCommaSep := by
    split <;> simp
  have rest : (if tuples = [] then [] else qpalnCommaSep :: tupleText tuples).drop 1 = tupleText tuples := by
    split
    · rename_i none
      rw [none]
      rfl
    · rfl
  obtain ⟨spanCode, span1, span2⟩ := clauseText_spans notComma clean1 clean2 next
  obtain ⟨skip2, skip1, skipTail⟩ := clauseText_drop code s1 s2 (if tuples = [] then [] else qpalnCommaSep :: tupleText tuples)
  rw [tupleText_cons, readTuple, if_neg (by rw [spanCode]; decide), skip2, if_neg (by simp)]
  simp only [span1, List.take_left, List.length_append, List.length_cons]
  rw [if_neg (by omega), skip1, span2, List.take_left, skipTail, rest]
  rfl

/-! ### The tree -/

/-- The patterns `qd_policy_parse_tree` adds for the tuples. -/
def treePatterns (tuples : List Tuple) : List (List UInt8) :=
  tuples.map fun (code, s1, s2) => treePattern code s1 s2

theorem treePatterns_cons (code : UInt8) (s1 s2 : List UInt8) (tuples : List Tuple) :
    treePatterns ((code, s1, s2) :: tuples) = treePattern code s1 s2 :: treePatterns tuples := rfl

/-- The loop of `qd_policy_parse_tree` over clean tuples is a run of adds, one
for each tuple's pattern; by induction on the tuples, one clause a round. -/
theorem parseTreeLoop_tupleText :
    ∀ (tuples : List Tuple) (fuel : Nat) (tree : QdParseTree Unit), (∀ tuple ∈ tuples, TupleClean tuple) →
      tuples.length ≤ fuel →
      parseTreeLoop fuel tree (tupleText tuples) =
        (Mealy.runPartial QdParseTree.apply tree ((treePatterns tuples).map fun view => .add view (some ()))).map (·.2)
  | [], fuel, tree, _, _ => by
      cases fuel <;> rfl
  | (code, s1, s2) :: tuples, fuel, tree, clean, enough => by
      obtain ⟨fuel, rfl⟩ : ∃ less, fuel = less + 1 := ⟨fuel - 1, by simp at enough; omega⟩
      have later := parseTreeLoop_tupleText tuples fuel
      have text : tupleText ((code, s1, s2) :: tuples) ≠ [] := by simp [tupleText_cons, clauseText]
      rw [parseTreeLoop, if_neg text, readTuple_tupleText_cons tuples (clean _ List.mem_cons_self), treePatterns_cons,
        List.map_cons, Mealy.runPartial]
      -- the add of this tuple's pattern, then the rest of the run
      have str : qdParseTreeAddPatternStr tree (treePattern code s1 s2) (some ()) =
          qdParseTreeAddPattern tree (treePattern code s1 s2) (some ()) := rfl
      simp only [str, QdParseTree.apply]
      cases qdParseTreeAddPattern tree (treePattern code s1 s2) (some ()) with
      | none => rfl
      | some result =>
          simp only [Option.bind_eq_bind, Option.bind_some, Option.map_some]
          rw [later result.2 (fun tuple member => clean tuple (List.mem_cons_of_mem _ member)) (by simp at enough; omega)]
          cases Mealy.runPartial QdParseTree.apply result.2 ((treePatterns tuples).map fun view => .add view (some ())) <;> rfl

/-- Whether an address pattern matches a name under the parse tree's wildcard
semantics: the pattern's tokens, as globs, accept the name's tokens. -/
def addressMatches (pattern name : List UInt8) : Bool :=
  Glob.accepts (patternGlobs .address pattern) (tokenIteratorInit .address name)

/-- What the tree built for the tuples finds: a name that one of their
patterns matches, among those with a token, which the tree stores. -/
def treeFinds (tuples : List Tuple) (name : List UInt8) : Bool :=
  (treePatterns tuples).any fun pattern => !(normalForm .address pattern).isEmpty && addressMatches pattern name

/-- A pattern's normal form matches what the pattern does. -/
theorem accepts_normalForm (pattern : List UInt8) :
    Glob.accepts (normalForm .address pattern) = Glob.accepts (patternGlobs .address pattern) := by
  rw [normalForm, patternGlobs_normalizePattern (by decide), Glob.accepts_norm]

/-- The pattern of a clean tuple has no zero octet. -/
theorem zero_not_mem_treePattern {code : UInt8} {s1 s2 : List UInt8} (clean : TupleClean (code, s1, s2)) :
    0 ∉ treePattern code s1 s2 := by
  obtain ⟨-, -, -, nul1, nul2⟩ := clean
  have key : (0 : UInt8) ∉ userSubstKey := by decide
  unfold treePattern
  split_ifs <;> simp [nul1, nul2, key]

/-- The tree `qd_policy_parse_tree` builds from clean tuples, within the
counter's room, finds exactly what `treeFinds` says, for every name with no
zero octet. -/
theorem qdPolicyParseTree_tupleText {tuples : List Tuple} (nonempty : tuples ≠ [])
    (clean : ∀ tuple ∈ tuples, TupleClean tuple)
    (budget : 2 + (((treePatterns tuples).map fun view => Op.add view (some ())).map (Op.cost .address)).sum < 2 ^ 32) :
    ∃ tree, qdPolicyParseTree (tupleText tuples) = some tree ∧
      ∀ name, 0 ∉ name → qdParseTreeRetrieveMatchStr tree name = some (treeFinds tuples name) := by
  obtain ⟨tree, built, finds⟩ := retrieveMatchStr_run_adds (by decide) (treePatterns tuples) () budget
  have text : (tupleText tuples).length ≠ 0 := by
    obtain ⟨tuple, tuples, rfl⟩ := List.exists_cons_of_ne_nil nonempty
    obtain ⟨code, s1, s2⟩ := tuple
    simp [tupleText_cons, clauseText]
  refine ⟨tree, ?_, fun name noNul => ?_⟩
  · rw [qdPolicyParseTree, if_neg text, parseTreeLoop_tupleText tuples _ _ clean (length_le_tupleText tuples), built]
  · rw [finds, qdIteratorCopy_octets noNul, treeFinds]
    congr 1
    rw [Bool.eq_iff_iff, List.any_eq_true, List.any_eq_true]
    refine exists_congr fun pattern => and_congr_right fun member => ?_
    obtain ⟨⟨code, s1, s2⟩, inTuples, rfl⟩ := List.mem_map.mp member
    rw [qdIteratorCopy_octets (zero_not_mem_treePattern (clean _ inTuples)), accepts_normalForm]
    rfl

/-! ### The approval loop -/

/-- The answer of the approval loop over decoded tuples, with `finds` for the
tree's lookup: the first name found approves, `*` stops the loop with `false`,
and the read of `proposed[-1]`, or of the buffer before it was written, has no
answer. `pName` is what the buffer holds. -/
def tupleAnswer (finds : List UInt8 → Bool) (username proposed : List UInt8) :
    Option (List UInt8) → List Tuple → Option Bool
  | _, [] => some false
  | pName, (code, _, _) :: tuples =>
      match tupleStep username proposed code with
      | .lookup name => if finds name then some true else tupleAnswer finds username proposed (some name) tuples
      | .deny => tupleAnswer finds username proposed pName tuples
      | .stale =>
          match pName with
          | none => none
          | some name => if finds name then some true else tupleAnswer finds username proposed (some name) tuples
      | .stop => some false
      | .outside => none

theorem lookupThen_of_retrieve {tree : QdParseTree Unit} {name : List UInt8} {found : Bool}
    (retrieved : qdParseTreeRetrieveMatchStr tree name = some found) (next : Option (List UInt8) → Option Bool) :
    lookupThen tree name next = if found then some true else next (some name) := by
  unfold lookupThen
  rw [retrieved]
  cases found <;> rfl

/-- Every name a tuple looks up is built from the proposed name and `${user}`. -/
theorem zero_not_mem_of_tupleStep {username proposed name : List UInt8} {code : UInt8} (noNul : 0 ∉ proposed)
    (step : tupleStep username proposed code = .lookup name) : 0 ∉ name := by
  have key : (0 : UInt8) ∉ userSubstKey := by decide
  unfold tupleStep at step
  split_ifs at step <;> cases step
  · exact noNul
  · intro member
    rcases List.mem_append.mp member with inKey | inRest
    · exact key inKey
    · exact noNul (List.mem_of_mem_drop inRest)
  · intro member
    rcases List.mem_append.mp member with inFront | inKey
    · exact noNul (List.mem_of_mem_take inFront)
    · exact key inKey

/-- The approval loop over clean tuples answers as `tupleAnswer` does, for a
tree whose lookups `finds` gives; by induction on the tuples, one clause a
round, the buffer holding a name with no zero octet. -/
theorem approveTreeLoop_tupleText (tree : QdParseTree Unit) (username proposed : List UInt8)
    {finds : List UInt8 → Bool} (answers : ∀ name, 0 ∉ name → qdParseTreeRetrieveMatchStr tree name = some (finds name))
    (noNul : 0 ∉ proposed) :
    ∀ (tuples : List Tuple) (fuel : Nat) (pName : Option (List UInt8)), (∀ tuple ∈ tuples, TupleClean tuple) →
      tuples.length ≤ fuel → (∀ name ∈ pName, 0 ∉ name) →
      approveTreeLoop tree username proposed fuel pName (tupleText tuples) =
        tupleAnswer finds username proposed pName tuples
  | [], fuel, pName, _, _, _ => by
      cases fuel <;> rfl
  | (code, s1, s2) :: tuples, fuel, pName, clean, enough, written => by
      obtain ⟨fuel, rfl⟩ : ∃ less, fuel = less + 1 := ⟨fuel - 1, by simp at enough; omega⟩
      have later : ∀ pName : Option (List UInt8), (∀ name ∈ pName, 0 ∉ name) →
          approveTreeLoop tree username proposed fuel pName (tupleText tuples) =
            tupleAnswer finds username proposed pName tuples := fun pName written =>
        approveTreeLoop_tupleText tree username proposed answers noNul tuples fuel pName
          (fun tuple member => clean tuple (List.mem_cons_of_mem _ member)) (by simp at enough; omega) written
      have text : tupleText ((code, s1, s2) :: tuples) ≠ [] := by simp [tupleText_cons, clauseText]
      rw [approveTreeLoop, if_neg text, readTuple_tupleText_cons tuples (clean _ List.mem_cons_self)]
      simp only [tupleAnswer]
      -- the branch of the tuple's control character
      cases step : tupleStep username proposed code with
      | lookup name =>
          have clear := zero_not_mem_of_tupleStep noNul step
          dsimp only
          rw [lookupThen_of_retrieve (answers name clear)]
          split
          · rfl
          · exact later (some name) (by rintro _ ⟨⟩; exact clear)
      | deny => exact later pName written
      | stale =>
          cases pName with
          | none => rfl
          | some name =>
              have clear : 0 ∉ name := written name rfl
              dsimp only
              rw [lookupThen_of_retrieve (answers name clear)]
              split
              · rfl
              · exact later (some name) (by rintro _ ⟨⟩; exact clear)
      | stop => rfl
      | outside => rfl

/-- Compiling a pattern list, building its tree and approving a non-empty name
with no zero octet answers as the tuples do in order, each looking up the name
its branch builds among the patterns of all of them. -/
theorem qdPolicyApproveLinkNameTree_compile (username proposed : List UInt8) {items : List (List UInt8)}
    {tuples : List Tuple} (compiled : items.mapM patternTuple = some tuples) (nonempty : items ≠ [])
    (clean : ∀ v ∈ items, qpalnCommaSep ∉ v ∧ 0 ∉ v) (named : proposed ≠ []) (noNul : 0 ∉ proposed)
    (budget : 2 + (((treePatterns tuples).map fun view => Op.add view (some ())).map (Op.cost .address)).sum < 2 ^ 32) :
    compilePatternList items = some (tupleText tuples) ∧
      ∃ tree, qdPolicyParseTree (tupleText tuples) = some tree ∧
        qdPolicyApproveLinkNameTree username (tupleText tuples) proposed tree =
          tupleAnswer (treeFinds tuples) username proposed none tuples := by
  have cleanTuples := mapM_patternTuple_clean compiled clean
  have tuplesNonempty : tuples ≠ [] := by
    rintro rfl
    exact nonempty (List.length_eq_zero_iff.mp (forall₂_of_mapM_patternTuple compiled).length_eq)
  obtain ⟨tree, built, finds⟩ := qdPolicyParseTree_tupleText tuplesNonempty cleanTuples budget
  refine ⟨compilePatternList_eq compiled, tree, built, ?_⟩
  have text : (tupleText tuples).length ≠ 0 :=
    Nat.pos_iff_ne_zero.mp (lt_of_lt_of_le (List.length_pos_iff.mpr tuplesNonempty) (length_le_tupleText tuples))
  rw [qdPolicyApproveLinkNameTree, if_neg (by simpa using named), if_neg text]
  exact approveTreeLoop_tupleText tree username proposed finds noNul tuples _ none cleanTuples
    (length_le_tupleText tuples) (by simp)

/-! ### The user guide's semantics -/

/-- The semantics of a pattern list in the user guide, a second definition to
compare the code with: some item, with its `${user}` replaced by the username,
matches the name. -/
def documentedPatternAllows (username proposed : List UInt8) (items : List (List UInt8)) : Bool :=
  items.any fun v => addressMatches (substituteUser username v) proposed

/-- An item with no `${user}` other than `*` is written as the tuple `a,v,`. -/
theorem patternTuple_plain {v : List UInt8} (absent : strstr v userSubstKey = none) (notStar : v ≠ [userSubstIWildcard]) :
    patternTuple v = some (userSubstIAbsent, v, []) := by
  rw [patternTuple, pyCount_eq_zero_iff.mpr absent, if_neg notStar]
  rfl

theorem mapM_patternTuple_plain :
    ∀ {items : List (List UInt8)}, (∀ v ∈ items, strstr v userSubstKey = none ∧ v ≠ [userSubstIWildcard]) →
      items.mapM patternTuple = some (items.map fun v => (userSubstIAbsent, v, []))
  | [], _ => rfl
  | v :: items, plain => by
      have rest := mapM_patternTuple_plain (fun w inItems => plain w (List.mem_cons_of_mem _ inItems))
      rw [List.mapM_cons, patternTuple_plain (plain v List.mem_cons_self).1 (plain v List.mem_cons_self).2, rest]
      rfl

/-- Tuples that all look up one name answer whether it is found. -/
theorem tupleAnswer_of_lookup (finds : List UInt8 → Bool) (username proposed name : List UInt8) :
    ∀ (pName : Option (List UInt8)) (tuples : List Tuple),
      (∀ tuple ∈ tuples, tupleStep username proposed tuple.1 = .lookup name) →
      tupleAnswer finds username proposed pName tuples = some (!tuples.isEmpty && finds name)
  | _, [], _ => rfl
  | pName, (code, s1, s2) :: tuples, steps => by
      have later := tupleAnswer_of_lookup finds username proposed name (some name) tuples
        (fun tuple member => steps tuple (List.mem_cons_of_mem _ member))
      simp only [tupleAnswer, steps _ List.mem_cons_self]
      cases found : finds name with
      | true => rfl
      | false =>
          rw [if_neg (by simp), later, found]
          simp

/-- For items with no `${user}`, none of them `*` and each with a token, a
non-empty name with no zero octet is approved as the user guide says: every
tuple looks the name itself up among the items. -/
theorem approve_documented_plain (username proposed : List UInt8) {items : List (List UInt8)}
    (nonempty : items ≠ []) (clean : ∀ v ∈ items, qpalnCommaSep ∉ v ∧ 0 ∉ v)
    (plain : ∀ v ∈ items, strstr v userSubstKey = none ∧ v ≠ [userSubstIWildcard] ∧ normalForm .address v ≠ [])
    (named : proposed ≠ []) (noNul : 0 ∉ proposed)
    (budget : 2 + ((items.map fun v => Op.add v (some ())).map (Op.cost .address)).sum < 2 ^ 32) :
    ∃ text tree, compilePatternList items = some text ∧ qdPolicyParseTree text = some tree ∧
      qdPolicyApproveLinkNameTree username text proposed tree = some (documentedPatternAllows username proposed items) := by
  have compiled := mapM_patternTuple_plain fun v member => ⟨(plain v member).1, (plain v member).2.1⟩
  have patterns : treePatterns (items.map fun v => (userSubstIAbsent, v, [])) = items := by
    simp [treePatterns, treePattern, Function.comp_def]
  obtain ⟨isText, tree, built, approved⟩ := qdPolicyApproveLinkNameTree_compile username proposed compiled nonempty
    clean named noNul (by rwa [patterns])
  refine ⟨_, tree, isText, built, ?_⟩
  rw [approved, tupleAnswer_of_lookup _ username proposed proposed none _ (by simp [tupleStep])]
  -- each item is its own pattern, stored since it has a token, and its own rule
  have found : treeFinds (items.map fun v => (userSubstIAbsent, v, [])) proposed =
      documentedPatternAllows username proposed items := by
    rw [treeFinds, patterns, documentedPatternAllows, Bool.eq_iff_iff, List.any_eq_true, List.any_eq_true]
    refine exists_congr fun v => and_congr_right fun member => ?_
    have same : substituteUser username v = v := by simp [substituteUser, (plain v member).1]
    simp [same, (plain v member).2.2]
  rw [found]
  simp [nonempty]

/-- The items `a.#` and `b`, and the name `a.c.d`. -/
theorem approve_documented_plain_ab :
    ([[97, 46, 35], [98]] : List (List UInt8)) ≠ [] ∧
      (∀ v ∈ ([[97, 46, 35], [98]] : List (List UInt8)), qpalnCommaSep ∉ v ∧ 0 ∉ v) ∧
      (∀ v ∈ ([[97, 46, 35], [98]] : List (List UInt8)),
        strstr v userSubstKey = none ∧ v ≠ [userSubstIWildcard] ∧ normalForm .address v ≠ []) ∧
      ([97, 46, 99, 46, 100] : List UInt8) ≠ [] ∧ 0 ∉ ([97, 46, 99, 46, 100] : List UInt8) ∧
      2 + ((([[97, 46, 35], [98]] : List (List UInt8)).map fun v => Op.add v (some ())).map (Op.cost .address)).sum <
        2 ^ 32 ∧
      ∃ text tree, compilePatternList [[97, 46, 35], [98]] = some text ∧ qdPolicyParseTree text = some tree ∧
        qdPolicyApproveLinkNameTree [98, 111, 98] text [97, 46, 99, 46, 100] tree =
          some (documentedPatternAllows [98, 111, 98] [97, 46, 99, 46, 100] [[97, 46, 35], [98]]) :=
  ⟨by decide, by decide, by decide, by decide, by decide, by decide,
    approve_documented_plain _ _ (by decide) (by decide) (by decide) (by decide) (by decide) (by decide)⟩

/-- Three inputs where approval by pattern is not the substituted patterns'
match. The item `*` is compiled to `*,,`, where the approval loop stops, so the
name `x` is denied though `*` matches it. With the items `${user}.x` and `y`,
the tuple of `y` looks up the name `${user}.x` itself, which the pattern
`${user}.x` in the tree matches, though neither `bob.x` nor `y` matches it. And
the item `a.${user}` with a name equal to the username reads `proposed[-1]`. -/
theorem pattern_approval_not_substituted :
    compilePatternList [[42]] = some [42, 44, 44] ∧
      (qdPolicyParseTree [42, 44, 44]).map (qdPolicyApproveLinkNameTree [98, 111, 98] [42, 44, 44] [120]) =
        some (some false) ∧
      documentedPatternAllows [98, 111, 98] [120] [[42]] = true ∧
      compilePatternList [userSubstKey ++ [46, 120], [121]] = some [112, 44, 44, 46, 120, 44, 97, 44, 121, 44] ∧
      (qdPolicyParseTree [112, 44, 44, 46, 120, 44, 97, 44, 121, 44]).map
          (qdPolicyApproveLinkNameTree [98, 111, 98] [112, 44, 44, 46, 120, 44, 97, 44, 121, 44]
            (userSubstKey ++ [46, 120])) = some (some true) ∧
      documentedPatternAllows [98, 111, 98] (userSubstKey ++ [46, 120]) [userSubstKey ++ [46, 120], [121]] = false ∧
      compilePatternList [[97, 46] ++ userSubstKey] = some [115, 44, 97, 46, 44] ∧
      (qdPolicyParseTree [115, 44, 97, 46, 44]).map
          (qdPolicyApproveLinkNameTree [98, 111, 98] [115, 44, 97, 46, 44] [98, 111, 98]) = some none := by
  decide +kernel

end DispatchRouter.Policy
