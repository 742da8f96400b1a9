/-
# What link-name approval allows

Compiling a list and approving a name against it is the same as going through
the tokens of the list, each with its own verdict, until one decides
(`qdPolicyApproveLinkName_compile`). The proof reads the compiled string back
clause by clause: each token's clause is its control field, a prefix and a
suffix with no comma (`compileToken_clause`), and one round of the approval
loop reads exactly one clause (`approveLoop_clause`).

A token's verdict is `ruleMatches` on its rule, the token with its first
`${user}` replaced by the username. The user guide's semantics
(`documentedAllows`) decides by the last character of the token and takes the
username literally; the two agree for every list without an empty token when
the username is not empty and does not end with `*` (`approve_documented`),
and not otherwise (`username_star_widens_user_rule`).
-/

import DispatchRouter.Policy.LinkName

namespace DispatchRouter.Policy

open Math.CString

/-! ### Verdicts -/

/-- The rule built from a token for a username: the token with its first
`${user}` replaced by the username. -/
def substituteUser (username token : List UInt8) : List UInt8 :=
  match strstr token userSubstKey with
  | some offset => token.take offset ++ username ++ token.drop (offset + userSubstKey.length)
  | none => token

/-- The verdict of one token: `*` approves, any other token's rule is tested. -/
def tokenVerdict (username proposed token : List UInt8) : Option Bool :=
  if token = [userSubstIWildcard] then some true else ruleMatches (substituteUser username token) proposed

/-- The verdict of one clause, for a clause with a known control field. -/
def clauseVerdict (username proposed : List UInt8) (code : UInt8) (s1 s2 : List UInt8) : Option Bool :=
  if code = userSubstIWildcard then some true
  else
    match clauseRule username code s1 s2 with
    | none => some false
    | some rule => ruleMatches rule proposed

/-- The first verdict that decides: an approval, or the read outside a rule;
`some false` when none does. -/
def firstVerdict : List (Option Bool) → Option Bool
  | [] => some false
  | some false :: rest => firstVerdict rest
  | verdict :: _ => verdict

/-! ### Reading the compiled string back -/

/-- Every token of a list is free of commas. -/
theorem comma_not_mem_csvTokensFrom {token : List UInt8} (clean : qpalnCommaSep ∉ token) :
    ∀ (rest : List UInt8), ∀ t ∈ csvTokensFrom token rest, qpalnCommaSep ∉ t
  | [] => by
      intro t member
      unfold csvTokensFrom at member
      split at member
      · simp at member
      · rw [List.mem_singleton] at member
        rw [member]
        exact clean
  | c :: rest => by
      intro t member
      unfold csvTokensFrom at member
      split at member
      · rcases List.mem_cons.mp member with same | later
        · rw [same]
          exact clean
        · exact comma_not_mem_csvTokensFrom (List.not_mem_nil) rest t later
      · rename_i notComma
        exact comma_not_mem_csvTokensFrom (by simp [clean, Ne.symm notComma]) rest t member

theorem compileLoop_nil (sep : List UInt8) : compileLoop sep [] = [] := rfl

/-- Past the first clause the separator is a comma. -/
theorem compileLoop_comma (tokens : List (List UInt8)) :
    compileLoop [qpalnCommaSep] tokens = if tokens = [] then [] else qpalnCommaSep :: compileLoop [] tokens := by
  cases tokens with
  | nil => rfl
  | cons token tokens => simp [compileLoop]

/-- A clause as the compiler writes it. -/
def clauseText (code : UInt8) (s1 s2 : List UInt8) : List UInt8 :=
  code :: qpalnCommaSep :: (s1 ++ qpalnCommaSep :: s2)

/-- The clause of a comma-free token: a known control field, and a prefix and a
suffix with no comma, whose verdict is the token's. -/
theorem compileToken_clause (username proposed : List UInt8) {token : List UInt8} (clean : qpalnCommaSep ∉ token) :
    ∃ code s1 s2, compileToken token = clauseText code s1 s2 ∧ code ≠ qpalnCommaSep ∧
      qpalnCommaSep ∉ s1 ∧ qpalnCommaSep ∉ s2 ∧
      (code = userSubstIWildcard ∨ clauseRule username code s1 s2 ≠ none) ∧
      clauseVerdict username proposed code s1 s2 = tokenVerdict username proposed token := by
  have front : ∀ n, qpalnCommaSep ∉ token.take n := fun n member => clean (List.mem_of_mem_take member)
  have back : ∀ n, qpalnCommaSep ∉ token.drop n := fun n member => clean (List.mem_of_mem_drop member)
  have notStar : ∀ t : List UInt8, t ≠ [userSubstIWildcard] → tokenVerdict username proposed t =
      ruleMatches (substituteUser username t) proposed := fun t other => by simp [tokenVerdict, other]
  unfold compileToken
  cases found : strstr token userSubstKey with
  | some offset =>
      obtain ⟨split, fits⟩ := strstr_split found
      -- a token that holds `${user}` is longer than `*`
      have long : token ≠ [userSubstIWildcard] := by
        intro star
        rw [star] at fits
        simp [userSubstKey] at fits
      have rule : substituteUser username token =
          token.take offset ++ username ++ token.drop (offset + userSubstKey.length) := by
        simp [substituteUser, found]
      rw [notStar token long, rule]
      by_cases start : offset = 0
      · -- token is a prefix
        refine ⟨userSubstIPrefix, [], token.drop userSubstKey.length, by simp [start, clauseText], by decide,
          by simp, back _, .inr (by simp [clauseRule, userSubstIPrefix, userSubstIAbsent]), ?_⟩
        simp [clauseVerdict, clauseRule, start, userSubstIPrefix, userSubstIAbsent, userSubstIWildcard]
      · by_cases ending : offset = token.length - userSubstKey.length
        · -- token is a suffix
          subst ending
          have rest : token.drop (token.length - userSubstKey.length + userSubstKey.length) = [] :=
            List.drop_eq_nil_of_le (by omega)
          refine ⟨userSubstISuffix, token.take (token.length - userSubstKey.length), [],
            by simp [start, clauseText], by decide, front _, by simp,
            .inr (by simp [clauseRule, userSubstISuffix, userSubstIAbsent, userSubstIPrefix, userSubstIEmbed]), ?_⟩
          simp [clauseVerdict, clauseRule, rest, userSubstISuffix, userSubstIAbsent, userSubstIPrefix,
            userSubstIEmbed, userSubstIWildcard]
        · -- token is embedded
          have whole : (token.drop (offset + userSubstKey.length)).take (token.length - offset - userSubstKey.length) =
              token.drop (offset + userSubstKey.length) := List.take_of_length_le (by simp; omega)
          refine ⟨userSubstIEmbed, token.take offset, token.drop (offset + userSubstKey.length),
            by simp [start, ending, whole, clauseText], by decide, front _, back _,
            .inr (by simp [clauseRule, userSubstIEmbed, userSubstIAbsent, userSubstIPrefix]), ?_⟩
          simp [clauseVerdict, clauseRule, userSubstIEmbed, userSubstIAbsent, userSubstIPrefix, userSubstIWildcard]
  | none =>
      have rule : substituteUser username token = token := by simp [substituteUser, found]
      by_cases star : token = [userSubstIWildcard]
      · -- token is wildcard
        refine ⟨userSubstIWildcard, [], [], by simp [star, clauseText], by decide, by simp, by simp, .inl rfl, ?_⟩
        simp [clauseVerdict, tokenVerdict, star]
      · -- token is ordinary string
        refine ⟨userSubstIAbsent, token, [], by simp [star, clauseText], by decide, clean, by simp,
          .inr (by simp [clauseRule]), ?_⟩
        rw [notStar token star, rule]
        simp [clauseVerdict, clauseRule, userSubstIAbsent, userSubstIWildcard]

/-- Where the readers of `policy.c` find the fields of a clause: its control
field is one character, its prefix field ends at the comma after it, and its
suffix field at the comma of the next clause or at the end. -/
theorem clauseText_spans {code : UInt8} {s1 s2 tail : List UInt8} (notComma : code ≠ qpalnCommaSep)
    (clean1 : qpalnCommaSep ∉ s1) (clean2 : qpalnCommaSep ∉ s2) (next : tail = [] ∨ tail.head? = some qpalnCommaSep) :
    strcspn (clauseText code s1 s2 ++ tail) [qpalnCommaSep] = 1 ∧
      strcspn (s1 ++ qpalnCommaSep :: (s2 ++ tail)) [qpalnCommaSep] = s1.length ∧
      strcspn (s2 ++ tail) [qpalnCommaSep] = s2.length := by
  have noComma : ∀ {part : List UInt8}, qpalnCommaSep ∉ part → ∀ x ∈ part, x ∉ [qpalnCommaSep] := by
    intro part clean x member
    rw [List.mem_singleton]
    rintro rfl
    exact clean member
  refine ⟨?_, strcspn_append_cons (noComma clean1) (by simp), ?_⟩
  · have shape : clauseText code s1 s2 ++ tail = [code] ++ qpalnCommaSep :: (s1 ++ qpalnCommaSep :: (s2 ++ tail)) := by
      simp [clauseText]
    rw [shape, strcspn_append_cons (noComma (by simpa using notComma.symm)) (by simp)]
    rfl
  · rcases next with rfl | start
    · rw [List.append_nil]
      exact strcspn_of_clean (noComma clean2)
    · obtain ⟨rest, rfl⟩ : ∃ rest, tail = qpalnCommaSep :: rest := by
        cases tail with
        | nil => cases start
        | cons c rest => exact ⟨rest, by simpa using start⟩
      exact strcspn_append_cons (noComma clean2) (by simp)

/-- What is left of a clause after each of its fields. -/
theorem clauseText_drop (code : UInt8) (s1 s2 tail : List UInt8) :
    (clauseText code s1 s2 ++ tail).drop 2 = s1 ++ qpalnCommaSep :: (s2 ++ tail) ∧
      (s1 ++ qpalnCommaSep :: (s2 ++ tail)).drop (s1.length + 1) = s2 ++ tail ∧
      (s2 ++ tail).drop (s2.length + 1) = tail.drop 1 := by
  refine ⟨by simp [clauseText], ?_, ?_⟩
  · rw [← List.drop_drop, List.drop_left]
    rfl
  · rw [← List.drop_drop, List.drop_left]

/-- One round of the approval loop reads one clause: it decides, or goes on
after the comma that follows. -/
theorem approveLoop_clause (username proposed : List UInt8) (fuel : Nat) {code : UInt8} {s1 s2 tail : List UInt8}
    (notComma : code ≠ qpalnCommaSep) (clean1 : qpalnCommaSep ∉ s1) (clean2 : qpalnCommaSep ∉ s2)
    (next : tail = [] ∨ tail.head? = some qpalnCommaSep)
    (known : code = userSubstIWildcard ∨ clauseRule username code s1 s2 ≠ none) :
    approveLoop username proposed (fuel + 1) (clauseText code s1 s2 ++ tail) =
      match clauseVerdict username proposed code s1 s2 with
      | some false => approveLoop username proposed fuel (tail.drop 1)
      | verdict => verdict := by
  obtain ⟨spanCode, span1, span2⟩ := clauseText_spans notComma clean1 clean2 next
  obtain ⟨skip2, skip1, skipTail⟩ := clauseText_drop code s1 s2 tail
  rw [approveLoop, if_neg (by simp [clauseText]), if_neg (by rw [spanCode]; decide), skip2,
    if_neg (by simp)]
  simp only [span1, List.take_left, List.length_append, List.length_cons]
  rw [if_neg (by omega), skip1, span2, List.take_left, skipTail]
  have headCode : (clauseText code s1 s2 ++ tail).headD 0 = code := rfl
  simp only [headCode]
  unfold clauseVerdict
  by_cases star : code = userSubstIWildcard
  · simp only [star, if_true]
  · simp only [star, if_false]
    cases hasRule : clauseRule username code s1 s2 with
    | none => exact absurd hasRule (known.resolve_left star)
    | some rule =>
        dsimp only
        cases ruleMatches rule proposed with
        | none => rfl
        | some approved => cases approved <;> rfl

/-- The clauses of comma-free tokens are read back one by one; by induction on
the tokens, each round of the loop taking one clause. -/
theorem approveLoop_compileLoop (username proposed : List UInt8) :
    ∀ (tokens : List (List UInt8)) (fuel : Nat), (∀ t ∈ tokens, qpalnCommaSep ∉ t) →
      (compileLoop [] tokens).length ≤ fuel →
      approveLoop username proposed fuel (compileLoop [] tokens) = firstVerdict (tokens.map (tokenVerdict username proposed))
  | [], fuel, _, _ => by
      cases fuel <;> rfl
  | token :: tokens, fuel, clean, enough => by
      obtain ⟨code, s1, s2, compiled, notComma, clean1, clean2, known, verdict⟩ :=
        compileToken_clause username proposed (clean token List.mem_cons_self)
      have shape : compileLoop [] (token :: tokens) = clauseText code s1 s2 ++ compileLoop [qpalnCommaSep] tokens := by
        rw [compileLoop, compiled, List.nil_append]
      -- what follows the clause: nothing, or a comma and the clauses of the other tokens
      have next : compileLoop [qpalnCommaSep] tokens = [] ∨
          (compileLoop [qpalnCommaSep] tokens).head? = some qpalnCommaSep := by
        rw [compileLoop_comma]
        split <;> simp
      have rest : (compileLoop [qpalnCommaSep] tokens).drop 1 = compileLoop [] tokens := by
        rw [compileLoop_comma]
        split
        · rename_i none
          rw [none]
          rfl
        · rfl
      have shorter : (compileLoop [] tokens).length ≤ (compileLoop [qpalnCommaSep] tokens).length := by
        rw [compileLoop_comma]
        split
        · rename_i none
          rw [none]
          rfl
        · simp
      rw [shape, List.length_append] at enough
      obtain ⟨fuel, rfl⟩ : ∃ less, fuel = less + 1 := ⟨fuel - 1, by simp [clauseText] at enough; omega⟩
      have later := approveLoop_compileLoop username proposed tokens fuel
        (fun t member => clean t (List.mem_cons_of_mem _ member)) (by simp [clauseText] at enough; omega)
      rw [shape, approveLoop_clause username proposed fuel notComma clean1 clean2 next known, rest, verdict,
        List.map_cons]
      cases tokenVerdict username proposed token with
      | none => rfl
      | some approved =>
          cases approved with
          | true => rfl
          | false => exact later

/-- Compiling a list and approving a non-empty name against it goes through the
tokens of the list until one decides. -/
theorem qdPolicyApproveLinkName_compile (username proposed csv : List UInt8) (named : proposed ≠ []) :
    qdPolicyApproveLinkName username (qdPolicyCompileAllowedCsv csv) proposed =
      firstVerdict ((csvTokens csv).map (tokenVerdict username proposed)) := by
  have clean := comma_not_mem_csvTokensFrom List.not_mem_nil csv
  unfold qdPolicyApproveLinkName qdPolicyCompileAllowedCsv
  rw [if_neg (by simpa using named)]
  split
  · -- nothing was compiled, so the list has no token
    rename_i empty
    cases tokens : csvTokens csv with
    | nil => rfl
    | cons token others =>
        obtain ⟨code, s1, s2, compiled, -⟩ :=
          compileToken_clause username proposed (clean token (by rw [← csvTokens, tokens]; exact List.mem_cons_self))
        rw [tokens, compileLoop, compiled] at empty
        simp [clauseText] at empty
  · exact approveLoop_compileLoop username proposed _ _ clean le_rfl

/-! ### The user guide's semantics -/

/-- The allow-list semantics of the user guide, a second definition to compare
the code with: `*` allows every name; any other token, with its `${user}`
replaced by the username taken literally, allows the name it spells, or, when
the token ends with `*`, every name that begins with its text before that
`*`. -/
def documentedAllows (username proposed token : List UInt8) : Bool :=
  token == [userSubstIWildcard] ||
    if token.getLast? = some qpalnWildcard then (substituteUser username token).dropLast.isPrefixOf proposed
    else substituteUser username token == proposed

theorem firstVerdict_map_some {β : Type} (decides : β → Bool) :
    ∀ items : List β, firstVerdict (items.map fun item => some (decides item)) = some (items.any decides)
  | [] => rfl
  | item :: items => by
      cases approved : decides item with
      | true => simp [firstVerdict, approved]
      | false => simp [firstVerdict, approved, firstVerdict_map_some decides items]

/-- A rule with a last character is tested by it. -/
theorem ruleMatches_of_getLast {rule : List UInt8} {last : UInt8} (proposed : List UInt8)
    (ends : rule.getLast? = some last) :
    ruleMatches rule proposed =
      some (if last = qpalnWildcard then rule.dropLast.isPrefixOf proposed else decide (proposed = rule)) := by
  rw [ruleMatches, ends]
  dsimp only
  by_cases star : last = qpalnWildcard
  · rw [if_neg (fun other => other star), if_pos star]
    have prefixTest : strncmpEq (rule.length - 1) proposed rule = true ↔ rule.take (rule.length - 1) <+: proposed :=
      strncmpEq_iff (by omega)
    rw [← List.dropLast_eq_take] at prefixTest
    congr 1
    exact Bool.eq_iff_iff.mpr (prefixTest.trans List.isPrefixOf_iff_prefix.symm)
  · rw [if_pos star, if_neg star]

/-- The rule of a non-empty token for a non-empty username that does not end
with `*` is not empty, and ends with `*` exactly when the token does. -/
theorem getLast_substituteUser {username token : List UInt8} (named : username ≠ [])
    (plain : username.getLast? ≠ some qpalnWildcard) (nonempty : token ≠ []) :
    ∃ last, (substituteUser username token).getLast? = some last ∧
      (last = qpalnWildcard ↔ token.getLast? = some qpalnWildcard) := by
  unfold substituteUser
  cases found : strstr token userSubstKey with
  | none =>
      obtain ⟨last, ends⟩ := Option.ne_none_iff_exists'.mp (List.getLast?_eq_none_iff.not.mpr nonempty)
      exact ⟨last, ends, by rw [ends, Option.some.injEq]⟩
  | some offset =>
      obtain ⟨split, -⟩ := strstr_split found
      by_cases after : token.drop (offset + userSubstKey.length) = []
      · -- the token ends with `${user}`, whose last character is no `*`
        obtain ⟨last, ends⟩ := Option.ne_none_iff_exists'.mp (List.getLast?_eq_none_iff.not.mpr named)
        refine ⟨last, by simp [after, List.getLast?_append, ends], ?_⟩
        have keyEnd : token.getLast? = some 125 := by
          rw [split, after]
          simp [userSubstKey, List.getLast?_append]
        rw [keyEnd]
        constructor
        · rintro rfl
          exact absurd ends plain
        · intro same
          cases same
      · -- the token ends with what follows `${user}`, and so does the rule
        obtain ⟨last, ends⟩ := Option.ne_none_iff_exists'.mp (List.getLast?_eq_none_iff.not.mpr after)
        have tokenEnd : token.getLast? = some last := by
          rw [split, List.getLast?_append, ends]
          rfl
        refine ⟨last, by rw [List.getLast?_append, ends]; rfl, ?_⟩
        rw [tokenEnd, Option.some.injEq]

/-- For a non-empty username that does not end with `*`, a non-empty token
decides as the user guide says. -/
theorem tokenVerdict_documented (username proposed token : List UInt8) (named : username ≠ [])
    (plain : username.getLast? ≠ some qpalnWildcard) (nonempty : token ≠ []) :
    tokenVerdict username proposed token = some (documentedAllows username proposed token) := by
  unfold tokenVerdict documentedAllows
  by_cases star : token = [userSubstIWildcard]
  · simp [star]
  · obtain ⟨last, ends, sameEnd⟩ := getLast_substituteUser named plain nonempty
    have notStar : (token == [userSubstIWildcard]) = false := by simpa using star
    rw [if_neg star, ruleMatches_of_getLast proposed ends, notStar, Bool.false_or]
    by_cases wild : last = qpalnWildcard
    · rw [if_pos wild, if_pos (sameEnd.mp wild)]
    · rw [if_neg wild, if_neg (fun ending => wild (sameEnd.mpr ending))]
      rw [beq_eq_decide]
      exact congrArg some (decide_eq_decide.mpr eq_comm)

/-- For a list without an empty token, and a username that is not empty and
does not end with `*`, approval is the user guide's. -/
theorem approve_documented (username proposed csv : List UInt8) (nonempty : proposed ≠ []) (named : username ≠ [])
    (plain : username.getLast? ≠ some qpalnWildcard) (noEmpty : [] ∉ csvTokens csv) :
    qdPolicyApproveLinkName username (qdPolicyCompileAllowedCsv csv) proposed =
      some ((csvTokens csv).any (documentedAllows username proposed)) := by
  rw [qdPolicyApproveLinkName_compile username proposed csv nonempty]
  have each : (csvTokens csv).map (tokenVerdict username proposed) =
      (csvTokens csv).map fun token => some (documentedAllows username proposed token) := by
    apply List.map_congr_left
    intro token member
    exact tokenVerdict_documented username proposed token named plain (fun empty => noEmpty (empty ▸ member))
  rw [each, firstVerdict_map_some]


/-- The user `bob` asks for `bob.x` against the list `${user}.*,tmp`. -/
theorem approve_documented_bob :
    ([98, 111, 98, 46, 120] : List UInt8) ≠ [] ∧ ([98, 111, 98] : List UInt8) ≠ [] ∧
      ([98, 111, 98] : List UInt8).getLast? ≠ some qpalnWildcard ∧
      [] ∉ csvTokens (userSubstKey ++ [46, 42, 44, 116, 109, 112]) ∧
      qdPolicyApproveLinkName [98, 111, 98] (qdPolicyCompileAllowedCsv (userSubstKey ++ [46, 42, 44, 116, 109, 112]))
          [98, 111, 98, 46, 120] =
        some ((csvTokens (userSubstKey ++ [46, 42, 44, 116, 109, 112])).any
          (documentedAllows [98, 111, 98] [98, 111, 98, 46, 120])) :=
  ⟨by decide, by decide, by decide, by decide,
    approve_documented _ _ _ (by decide) (by decide) (by decide) (by decide)⟩

/-- The username `a*` with the one token `${user}` builds the rule `a*`, whose
last character makes it a prefix test, so the name `ab` is approved; the user
guide takes the username literally and allows `a*` alone. The same token with
an empty username, and a list that starts with an empty token, build an empty
rule, whose character at index -1 is read. -/
theorem username_star_widens_user_rule :
    qdPolicyApproveLinkName [97, 42] (qdPolicyCompileAllowedCsv userSubstKey) [97, 98] = some true ∧
      (csvTokens userSubstKey).any (documentedAllows [97, 42] [97, 98]) = false ∧
      qdPolicyApproveLinkName [] (qdPolicyCompileAllowedCsv userSubstKey) [98] = none ∧
      qdPolicyApproveLinkName [97] (qdPolicyCompileAllowedCsv [44, 97]) [97] = none := by
  decide

end DispatchRouter.Policy
