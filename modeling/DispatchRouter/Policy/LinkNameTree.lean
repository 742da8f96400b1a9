/-
# Link-name approval by pattern (`policy.c`, `policy_local.py`)

The `sourcePattern` and `targetPattern` lists of a vhost policy hold address
patterns. The Python side (`compile_app_settings`) writes each item as a tuple
of three fields, a control character, a prefix and a suffix, and joins all the
fields with commas: `a,name,` for an item without `${user}`, `*,,` for `*`,
`p,,suffix` for one that starts with `${user}` and `s,prefix,` for one that
ends with it; it refuses an item with `${user}` twice or inside.

`qd_policy_parse_tree` reads the tuples back and adds to one address tree, for
each, the pattern with `${user}` put back in. `_qd_policy_approve_link_name_tree`
goes the other way: for each tuple it rewrites the proposed name, with the
username at its start or end replaced by `${user}`, and looks the result up in
the tree, which holds every tuple's pattern. What one tuple does with the name
is `tupleStep`.

Strings are the octets of C strings. A read of `proposed[-1]`, and a lookup of
the scratch buffer before anything was written into it, have no answer in the
model (`none`); an allocation failure is not modelled.
-/

import DispatchRouter.Policy.LinkName
import DispatchRouter.ParseTree.Tree

namespace DispatchRouter.Policy

open Math.CString ParseTree

/-! ### `compile_app_settings` for a pattern key -/

/-- The fields `compile_app_settings` appends for one `sourcePattern` or
`targetPattern` item, as control character, prefix and suffix (its `KC_TUPLE_*`
characters are those of `policy.c`); `none` where it reports an error: `${user}`
more than once, or once but neither at the start nor at the end. -/
def patternTuple (v : List UInt8) : Option (UInt8 × List UInt8 × List UInt8) :=
  match pyCount v userSubstKey with
  | 0 =>
      if v = [userSubstIWildcard] then some (userSubstIWildcard, [], [])
      else some (userSubstIAbsent, v, [])
  | 1 =>
      let offset := (strstr v userSubstKey).getD 0
      if userSubstKey.isPrefixOf v then some (userSubstIPrefix, [], v.drop (offset + userSubstKey.length))
      else if userSubstKey.isSuffixOf v then some (userSubstISuffix, v.take offset, [])
      else none
  | _ => none

/-- `','.join(eVal)` over the items of a pattern key, in the order of
`list(set(val))`; `none` where an item is refused. -/
def compilePatternList (items : List (List UInt8)) : Option (List UInt8) :=
  (items.mapM patternTuple).map fun tuples =>
    [qpalnCommaSep].intercalate (tuples.flatMap fun (code, s1, s2) => [[code], s1, s2])

/-! ### Reading the tuples back -/

/-- One round of the tuple reader that `qd_policy_parse_tree` and
`_qd_policy_approve_link_name_tree` share, at `pch` before `dupend`: the control
character, the prefix field, the suffix field and the text after the comma that
ends it; `none` where the loop has `assert(false); break`. -/
def readTuple (pch : List UInt8) : Option (UInt8 × List UInt8 × List UInt8 × List UInt8) :=
  if strcspn pch [qpalnCommaSep] ≠ 1 then none
  else
    let code := pch.headD 0
    let pch := pch.drop 2
    if pch = [] then none
    else
      let s1 := pch.take (strcspn pch [qpalnCommaSep])
      -- no comma after the prefix field: `pch > dupend`
      if s1.length = pch.length then none
      else
        let pch := pch.drop (s1.length + 1)
        let s2 := pch.take (strcspn pch [qpalnCommaSep])
        some (code, s1, s2, pch.drop (s2.length + 1))

/-! ### `qd_policy_parse_tree` -/

/-- The pattern `qd_policy_parse_tree` adds for a tuple. Its last branch takes
every control character but `a`, `p` and `e`, so `*,,` adds `${user}`. -/
def treePattern (code : UInt8) (s1 s2 : List UInt8) : List UInt8 :=
  if code = userSubstIAbsent then s1
  else if code = userSubstIPrefix then userSubstKey ++ s2
  else if code = userSubstIEmbed then s1 ++ userSubstKey ++ s2
  else s1 ++ userSubstKey

/-- The loop of `qd_policy_parse_tree`, each pattern added with the payload
`(void *)1`; `none` where the model's tree fails. Each round takes at least one
character; `fuel` counts rounds. -/
def parseTreeLoop : Nat → QdParseTree Unit → List UInt8 → Option (QdParseTree Unit)
  | 0, tree, _ => some tree
  | fuel + 1, tree, pch =>
      if pch = [] then some tree
      else
        match readTuple pch with
        | none => some tree
        | some (code, s1, s2, pch) => do
            let (_, tree) ← qdParseTreeAddPatternStr tree (treePattern code s1 s2) (some ())
            parseTreeLoop fuel tree pch

/-- `qd_policy_parse_tree(config_spec)`: no tree for an empty spec. -/
def qdPolicyParseTree (configSpec : List UInt8) : Option (QdParseTree Unit) :=
  if configSpec.length = 0 then none
  else parseTreeLoop configSpec.length (qdParseTreeNew .address) configSpec

/-! ### `_qd_policy_approve_link_name_tree` -/

/-- `qd_parse_address_token_sep()`, the text `./`. -/
def qdParseAddressTokenSep : List UInt8 := [46, 47]

/-- `is_token_sep` -/
def isTokenSep (testc : UInt8) : Bool := qdParseAddressTokenSep.contains testc

/-- What one tuple of `_qd_policy_approve_link_name_tree` does with the
proposed name. -/
inductive TupleStep
  /-- look the name up in the tree -/
  | lookup (name : List UInt8)
  /-- `continue`: the name is denied by this tuple -/
  | deny
  /-- `assert(false)` for `e`: the scratch buffer is looked up as it is -/
  | stale
  /-- `assert(false); break` for any other control character -/
  | stop
  /-- `proposed[proposed_len - username_len - 1]` is read with equal lengths, at
  index -1 -/
  | outside
  deriving DecidableEq, Repr

/-- The branch of `_qd_policy_approve_link_name_tree` for the control character
`code`. -/
def tupleStep (username proposed : List UInt8) (code : UInt8) : TupleStep :=
  if code = userSubstIAbsent then .lookup proposed
  else if code = userSubstIPrefix then
    if !strncmpEq username.length proposed username then .deny
    -- a longer name must have a separator right after the username
    else if username.length ≠ proposed.length ∧ !isTokenSep (proposed.getD username.length 0) then .deny
    else .lookup (userSubstKey ++ proposed.drop username.length)
  else if code = userSubstIEmbed then .stale
  else if code = userSubstISuffix then
    if username.length > proposed.length then .deny
    else if username.length = proposed.length then .outside
    else if !isTokenSep (proposed.getD (proposed.length - username.length - 1) 0) then .deny
    else if !strncmpEq username.length (proposed.drop (proposed.length - username.length)) username then .deny
    else .lookup (proposed.take (proposed.length - username.length) ++ userSubstKey)
  else .stop

/-- The lookup of a name and what the loop does next: stop with `true` on a
match, go on with the name in the scratch buffer otherwise. -/
def lookupThen (tree : QdParseTree Unit) (name : List UInt8) (next : Option (List UInt8) → Option Bool) :
    Option Bool :=
  match qdParseTreeRetrieveMatchStr tree name with
  | none => none
  | some true => some true
  | some false => next (some name)

/-- The loop of `_qd_policy_approve_link_name_tree` over the tuples from `pch`;
`pName` is what the scratch buffer holds, `none` before the first write. Each
round takes at least one character; `fuel` counts rounds. -/
def approveTreeLoop (tree : QdParseTree Unit) (username proposed : List UInt8) :
    Nat → Option (List UInt8) → List UInt8 → Option Bool
  | 0, _, _ => some false
  | fuel + 1, pName, pch =>
      if pch = [] then some false
      else
        match readTuple pch with
        | none => some false
        | some (code, _, _, pch) =>
            match tupleStep username proposed code with
            | .lookup name => lookupThen tree name fun pName => approveTreeLoop tree username proposed fuel pName pch
            | .deny => approveTreeLoop tree username proposed fuel pName pch
            | .stale =>
                match pName with
                | none => none
                | some name => lookupThen tree name fun pName => approveTreeLoop tree username proposed fuel pName pch
            | .stop => some false
            | .outside => none

/-- `_qd_policy_approve_link_name_tree(username, allowed, proposed, tree)`;
`none` where it reads outside the proposed name or a buffer never written. -/
def qdPolicyApproveLinkNameTree (username allowed proposed : List UInt8) (tree : QdParseTree Unit) : Option Bool :=
  if proposed.length = 0 then some false
  else if allowed.length = 0 then some false
  else approveTreeLoop tree username proposed allowed.length none allowed

end DispatchRouter.Policy
