/-
# Link-name approval (`policy.c`)

A vhost policy lists the link source and target names a user group may open,
as comma-separated tokens. `qd_policy_compile_allowed_csv` turns each token
into a clause of three fields, a control character, a prefix and a suffix:
`a,name,` for a plain name, `*,,` for `*`, and `p,,suffix`, `s,prefix,` or
`e,prefix,suffix` for a token that holds `${user}` at its start, at its end or
inside. `_qd_policy_approve_link_name` reads the clauses back, builds the name
each allows for the user, and tests the proposed name against it: whole, or,
when the last character of the name built is `*`, by the text before that `*`.

`qdPolicyApproveLinkName_compile` says what the two do together, for every
list: each token allows what its own rule does, the token with its first
`${user}` replaced by the username, and the first token that decides, decides.
The test looks at the last character of the rule built, not of the token: a
username that ends with `*` turns a token that ends with `${user}` into a
prefix test. And an empty rule, from an empty token or from `${user}` with an
empty username, has its character at index -1 read, where `ruleMatches` gives
`none`. With neither, the answer is the one the user guide gives
(`approve_documented`).

Strings are the octets of C strings. The scratch buffer that `pName` is
written into is grown to fit every rule before it is written, so the rule is
modelled whole; an allocation failure is not modelled.
-/

import DispatchRouter.Math.CString

namespace DispatchRouter.Policy

open Math.CString

/-- `QPALN_COMMA_SEP`, the octet of `,` -/
def qpalnCommaSep : UInt8 := 44

/-- `QPALN_WILDCARD`, the octet of `*` -/
def qpalnWildcard : UInt8 := 42

/-- `user_subst_key`, the octets of the text `${user}` -/
def userSubstKey : List UInt8 := [36, 123, 117, 115, 101, 114, 125]

/-- `user_subst_i_absent`, `a` -/
def userSubstIAbsent : UInt8 := 97

/-- `user_subst_i_prefix`, `p` -/
def userSubstIPrefix : UInt8 := 112

/-- `user_subst_i_embed`, `e` -/
def userSubstIEmbed : UInt8 := 101

/-- `user_subst_i_suffix`, `s` -/
def userSubstISuffix : UInt8 := 115

/-- `user_subst_i_wildcard`, `*` -/
def userSubstIWildcard : UInt8 := 42

/-! ### `qd_policy_compile_allowed_csv` -/

/-- The tokens the loop of `qd_policy_compile_allowed_csv` visits, `token`
being the one under way: the text up to each comma, and the text after the last
comma unless it is empty, since the loop stops at the end of the string. -/
def csvTokensFrom (token : List UInt8) : List UInt8 → List (List UInt8)
  | [] => if token = [] then [] else [token]
  | c :: rest => if c = qpalnCommaSep then token :: csvTokensFrom [] rest else csvTokensFrom (token ++ [c]) rest

/-- The tokens of a comma-separated list. -/
def csvTokens (csv : List UInt8) : List (List UInt8) := csvTokensFrom [] csv

/-- The clause `qd_policy_compile_allowed_csv` writes for one token. -/
def compileToken (token : List UInt8) : List UInt8 :=
  match strstr token userSubstKey with
  | some offset =>
      if offset = 0 then
        -- token is a prefix
        [userSubstIPrefix, qpalnCommaSep, qpalnCommaSep] ++ token.drop userSubstKey.length
      else if offset = token.length - userSubstKey.length then
        -- token is a suffix
        [userSubstISuffix, qpalnCommaSep] ++ token.take (token.length - userSubstKey.length) ++ [qpalnCommaSep]
      else
        -- token is embedded
        [userSubstIEmbed, qpalnCommaSep] ++ token.take offset ++ [qpalnCommaSep] ++
          (token.drop (offset + userSubstKey.length)).take (token.length - offset - userSubstKey.length)
  | none =>
      if token = [userSubstIWildcard] then [userSubstIWildcard, qpalnCommaSep, qpalnCommaSep]
      else [userSubstIAbsent, qpalnCommaSep] ++ token ++ [qpalnCommaSep]

/-- The loop of `qd_policy_compile_allowed_csv`: `sep` is written before each
clause, empty before the first. -/
def compileLoop (sep : List UInt8) : List (List UInt8) → List UInt8
  | [] => []
  | token :: tokens => sep ++ compileToken token ++ compileLoop [qpalnCommaSep] tokens

/-- `qd_policy_compile_allowed_csv` -/
def qdPolicyCompileAllowedCsv (csv : List UInt8) : List UInt8 := compileLoop [] (csvTokens csv)

/-! ### `_qd_policy_approve_link_name` -/

/-- `pName` as `snprintf` writes it for a clause and a username; `none` for a
control field that is none of the four. -/
def clauseRule (username : List UInt8) (code : UInt8) (s1 s2 : List UInt8) : Option (List UInt8) :=
  if code = userSubstIAbsent then some s1
  else if code = userSubstIPrefix then some (username ++ s2)
  else if code = userSubstIEmbed then some (s1 ++ username ++ s2)
  else if code = userSubstISuffix then some (s1 ++ username)
  else none

/-- The test of the proposed name against a rule. `pName[rule_len-1]` is read
first: a rule whose last character is not `QPALN_WILDCARD` must equal the name
(`strcmp`), and one whose last character is must agree with it on the
characters before (`strncmp`). For an empty rule that read is at index -1,
outside the rule; the model gives `none`. -/
def ruleMatches (rule proposed : List UInt8) : Option Bool :=
  match rule.getLast? with
  | none => none
  | some last =>
      if last ≠ qpalnWildcard then some (decide (proposed = rule))
      else some (strncmpEq (rule.length - 1) proposed rule)

/-- The loop of `_qd_policy_approve_link_name` over the clauses from `pch`.
Where the C code has `assert(false); break` the loop stops with the result it
has, `false`. Each round takes at least one character; `fuel` counts rounds. -/
def approveLoop (username proposed : List UInt8) : Nat → List UInt8 → Option Bool
  | 0, _ => some false
  | fuel + 1, pch =>
      if pch = [] then some false
      else if strcspn pch [qpalnCommaSep] ≠ 1 then some false
      else
        let code := pch.headD 0
        let pch := pch.drop 2
        if pch = [] then some false
        else
          let s1 := pch.take (strcspn pch [qpalnCommaSep])
          -- no comma after the prefix field: `pch > dupend`
          if s1.length = pch.length then some false
          else
            let pch := pch.drop (s1.length + 1)
            let s2 := pch.take (strcspn pch [qpalnCommaSep])
            let pch := pch.drop (s2.length + 1)
            if code = userSubstIWildcard then some true
            else
              match clauseRule username code s1 s2 with
              | none => some false
              | some rule =>
                  match ruleMatches rule proposed with
                  | none => none
                  | some true => some true
                  | some false => approveLoop username proposed fuel pch

/-- `_qd_policy_approve_link_name(username, allowed, proposed)`; `none` where it
reads outside a rule it built. -/
def qdPolicyApproveLinkName (username allowed proposed : List UInt8) : Option Bool :=
  if proposed.length = 0 then some false
  else if allowed.length = 0 then some false
  else approveLoop username proposed allowed.length allowed

end DispatchRouter.Policy
