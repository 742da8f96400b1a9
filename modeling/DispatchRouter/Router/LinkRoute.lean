/-
# Link-route patterns as address keys

`route_control.c` keeps a link route in the core's address table under a key
made from its pattern, and `mobile.c` passes such keys to the other routers,
which rebuild the pattern from the key and add it to their link-route parse
tree. A pattern whose only wildcard is a final `#` is keyed as a prefix: the
`#` is cut off, the rest is read through the address-hash view, and `C` or `D`
goes in front; the key of any other pattern is the pattern read through the
same view with `E` or `F` in front. The address-hash view also drops a scheme
such as `x:/` and a trailing separator.

The key and the pattern rebuilt from it do not follow the meaning of the
pattern: a pattern with a scheme is rebuilt without it, and two patterns with
the same meaning, such as `*.#` and `#.*`, get two keys, so the second is added
to a tree that already holds the first.
-/

import DispatchRouter.Iterator.View
import DispatchRouter.ParseTree.Tree

namespace DispatchRouter.Router

open Math Iterator ParseTree Hash

/-- `qd_direction_t`. -/
inductive QdDirection
  | incoming
  | outgoing
  deriving DecidableEq, Repr

/-- `QD_ITER_HASH_PREFIX_LINKROUTE_ADDR_IN`, `C`. -/
def prefixLinkrouteAddrIn : UInt8 := 67

/-- `QD_ITER_HASH_PREFIX_LINKROUTE_ADDR_OUT`, `D`. -/
def prefixLinkrouteAddrOut : UInt8 := 68

/-- `QD_ITER_HASH_PREFIX_LINKROUTE_PATTERN_IN`, `E`. -/
def prefixLinkroutePatternIn : UInt8 := 69

/-- `QD_ITER_HASH_PREFIX_LINKROUTE_PATTERN_OUT`, `F`. -/
def prefixLinkroutePatternOut : UInt8 := 70

/-- `QDR_LINK_ROUTE_HASH(dir, is_prefix)`. -/
def qdrLinkRouteHash (dir : QdDirection) (isPrefix : Bool) : UInt8 :=
  match dir with
  | .incoming => if isPrefix then prefixLinkrouteAddrIn else prefixLinkroutePatternIn
  | .outgoing => if isPrefix then prefixLinkrouteAddrOut else prefixLinkroutePatternOut

/-- `QDR_IS_LINK_ROUTE_PREFIX(p)`. -/
def qdrIsLinkRoutePrefix (p : UInt8) : Bool :=
  p == prefixLinkrouteAddrIn || p == prefixLinkrouteAddrOut

/-- `QDR_LINK_ROUTE_DIR(p)`. -/
def qdrLinkRouteDir (p : UInt8) : QdDirection :=
  if p == prefixLinkrouteAddrIn || p == prefixLinkroutePatternIn then .incoming else .outgoing

/-- `qdr_link_route_pattern_is_prefix`: no `*`, and the first `#` is the last
octet. -/
def qdrLinkRoutePatternIsPrefix (pattern : List UInt8) : Bool :=
  !pattern.contains 42 && pattern.idxOf? 35 == some (pattern.length - 1)

/-- `qdr_link_route_pattern_to_address`: the key of a link route's pattern, as
the C string `qd_iterator_copy` gives. -/
def qdrLinkRoutePatternToAddress (config : AddressConfig) (pattern : List UInt8) (dir : QdDirection) :
    List UInt8 :=
  let iter :=
    if qdrLinkRoutePatternIsPrefix pattern then
      -- the old prefix form: the `#` cut off, `C` or `D` in front
      qdIteratorAnnotatePrefix config (qdIteratorString config (pattern.take (pattern.length - 1)) .addressHash)
        (qdrLinkRouteHash dir true)
    else
      qdIteratorAnnotatePrefix config (qdIteratorString config pattern .addressHash) (qdrLinkRouteHash dir false)
  (qdIteratorCopy (viewOctets iter)).octets

/-- `qdr_address_to_link_route_pattern` on a key read whole: the key without
its first octet, with `.#` after it when that octet marks a prefix, and the
direction the first octet names. -/
def qdrAddressToLinkRoutePattern (key : List UInt8) : List UInt8 × QdDirection :=
  let pattern := (qdIteratorCopy key).octets
  let pattern := if qdrIsLinkRoutePrefix (pattern.headD 0) then pattern ++ [46, 35] else pattern
  (pattern.drop 1, qdrLinkRouteDir (pattern.headD 0))

/-- `qdr_link_route_map_pattern_CT`: the pattern of a key added, with the
address, to the link-route tree of its direction. An error is only logged. -/
def qdrLinkRouteMapPatternCT {ν : Type} (linkRouteTree : QdDirection → QdParseTree ν) (key : List UInt8)
    (addr : ν) : Option (QdError × (QdDirection → QdParseTree ν)) :=
  let (pattern, dir) := qdrAddressToLinkRoutePattern key
  (qdParseTreeAddPatternStr (linkRouteTree dir) pattern (some addr)).map fun added =>
    (added.1, Function.update linkRouteTree dir added.2)

/-! ### What the keys lose -/

/-- The key `C`/`D` or `E`/`F` a pattern gets names its direction back. -/
theorem qdrLinkRouteDir_hash (dir : QdDirection) (isPrefix : Bool) :
    qdrLinkRouteDir (qdrLinkRouteHash dir isPrefix) = dir := by
  cases dir <;> cases isPrefix <;> rfl

/-- On an interior router, `x:/a.#` passes validation but comes back from its
key as `a.#`, which matches the address `a` where `x:/a.#` does not; `*.#` and
`#.*` match the same addresses but get two keys, and the second, mapped after
the first, is added to a tree that already holds the first. -/
theorem link_route_keys_miss_pattern_meaning :
    validatePattern .address [120, 58, 47, 97, 46, 35] = true ∧
    qdrAddressToLinkRoutePattern
        (qdrLinkRoutePatternToAddress (qdIteratorSetAddress false [48] [82]) [120, 58, 47, 97, 46, 35] .incoming) =
      ([97, 46, 35], .incoming) ∧
    Glob.accepts (patternGlobs .address [97, 46, 35]) (tokenIteratorInit .address [97]) = true ∧
    Glob.accepts (patternGlobs .address [120, 58, 47, 97, 46, 35]) (tokenIteratorInit .address [97]) = false ∧
    (∀ address, Glob.accepts (patternGlobs .address [42, 46, 35]) (tokenIteratorInit .address address) =
      Glob.accepts (patternGlobs .address [35, 46, 42]) (tokenIteratorInit .address address)) ∧
    qdrLinkRoutePatternToAddress (qdIteratorSetAddress false [48] [82]) [42, 46, 35] .incoming = [69, 42, 46, 35] ∧
    qdrLinkRoutePatternToAddress (qdIteratorSetAddress false [48] [82]) [35, 46, 42] .incoming = [69, 35, 46, 42] ∧
    ((qdrLinkRouteMapPatternCT (fun _ => (qdParseTreeNew .address : QdParseTree Nat)) [69, 42, 46, 35] 1).bind
      fun mapped => (qdrLinkRouteMapPatternCT mapped.2 [69, 35, 46, 42] 2).map (·.1)) = some .alreadyExists := by
  -- `*.#` and `#.*` are `*` and `#` in the two orders, which match alike
  have sameMeaning : ∀ address, Glob.accepts (patternGlobs .address [42, 46, 35]) (tokenIteratorInit .address address) =
      Glob.accepts (patternGlobs .address [35, 46, 42]) (tokenIteratorInit .address address) := by
    intro address
    rw [show patternGlobs .address [42, 46, 35] = [.one, .many] by decide,
      show patternGlobs .address [35, 46, 42] = [.many, .one] by decide, Glob.accepts_many_one]
  exact ⟨by decide, by decide, by decide, by decide, sameMeaning, by decide, by decide, by decide⟩

end DispatchRouter.Router
