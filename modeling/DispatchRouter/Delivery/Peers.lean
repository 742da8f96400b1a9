/-
# Delivery peers

`delivery.c`: a delivery is linked to its peers either through the one pointer
`peer` or, once it has had a second peer, through the list `peers`; the list
is kept after it shrinks to one or none. `qdr_delivery_link_peers_CT` links a
new outgoing delivery to an incoming one, moving the first peer into the list
when the second comes; `qdr_delivery_unlink_peers_CT` drops the link on both
sides, and moves the iteration cursor `next_peer_ref` of either side on when it
points at the reference dropped. `qdr_delivery_first_peer_CT` and
`qdr_delivery_next_peer_CT` walk the peers with that cursor.

`PeerLinks.Sound` is what the links keep: peering is symmetric and never of a
delivery with itself, the pointer and the list are never both used, a list has
no delivery twice, the cursor is on the list, and each link holds one
reference on each side. Every call on a linked pair and every link of a fresh
delivery to another keeps it (`Sound.step`). The forwarder only links the out
delivery it has just made (`forwarder.c`, `qdr_forward_new_delivery_CT`), so a
link of a delivery to itself never happens.
-/

import Mathlib.Logic.Function.Basic
import DispatchRouter.Math.Deq
import DispatchRouter.Math.Mealy

namespace DispatchRouter.Delivery

open Math

variable {ι : Type} [DecidableEq ι]

/-! ### The model -/

/-- The peer links of the core's deliveries: `peer`, `peers`, `next_peer_ref`
and the references the links hold on each delivery. A reference in `peers`
or in `next_peer_ref` is known by the delivery it points to, which a list
holds only once. -/
structure PeerLinks (ι : Type) where
  peer : ι → Option ι
  peers : ι → List ι
  nextPeerRef : ι → Option ι
  peerRefs : ι → Nat

/-- No delivery linked. -/
def PeerLinks.initial : PeerLinks ι := ⟨fun _ => none, fun _ => [], fun _ => none, fun _ => 0⟩

/-- `qdr_delivery_peer_count_CT`. -/
def qdrDeliveryPeerCountCT (links : PeerLinks ι) (dlv : ι) : Nat :=
  if (links.peer dlv).isSome then 1 else (links.peers dlv).length

/-- `qdr_delivery_link_peers_CT`: `outDlv` becomes a peer of `inDlv`, the
first peer of `inDlv` moving into its list when the second comes, and each
takes a reference on the other; none where it asserts, on a first peer that
already has a peer. -/
def qdrDeliveryLinkPeersCT (links : PeerLinks ι) (inDlv outDlv : ι) : Option (PeerLinks ι) :=
  let linked : Option (PeerLinks ι) :=
    if qdrDeliveryPeerCountCT links inDlv = 0 then
      if (links.peer outDlv).isSome then none
      else some { links with peer := Function.update links.peer inDlv (some outDlv) }
    else
      let links :=
        match links.peer inDlv with
        | some first =>
            { links with
              peers := Function.update links.peers inDlv (links.peers inDlv ++ [first])
              peer := Function.update links.peer inDlv none }
        | none => links
      some { links with peers := Function.update links.peers inDlv (links.peers inDlv ++ [outDlv]) }
  linked.map fun links =>
    let peerRefs := Function.update links.peerRefs outDlv (links.peerRefs outDlv + 1)
    { links with
      peer := Function.update links.peer outDlv (some inDlv)
      peerRefs := Function.update peerRefs inDlv (peerRefs inDlv + 1) }

/-- Each half of `qdr_delivery_unlink_peers_CT`: `dlv` drops its reference to
`peer`, its cursor moving on if it pointed there; none where it asserts, on a
peer it does not hold. -/
def dropPeerRef (links : PeerLinks ι) (dlv peer : ι) : Option (PeerLinks ι) :=
  match links.peer dlv with
  | some only =>
      if only = peer then some { links with peer := Function.update links.peer dlv none } else none
  | none =>
      if peer ∈ links.peers dlv then
        some { links with
          nextPeerRef :=
            if links.nextPeerRef dlv = some peer then
              Function.update links.nextPeerRef dlv (deqNext (links.peers dlv) peer)
            else links.nextPeerRef
          peers := Function.update links.peers dlv ((links.peers dlv).erase peer) }
      else none

/-- `qdr_delivery_unlink_peers_CT`: both sides drop their reference, and each
gives back the one the link held. -/
def qdrDeliveryUnlinkPeersCT (links : PeerLinks ι) (dlv peer : ι) : Option (PeerLinks ι) :=
  (dropPeerRef links dlv peer).bind fun links =>
    (dropPeerRef links peer dlv).map fun links =>
      let peerRefs := Function.update links.peerRefs dlv (links.peerRefs dlv - 1)
      { links with peerRefs := Function.update peerRefs peer (peerRefs peer - 1) }

/-- `qdr_delivery_first_peer_CT`: the one peer, or the head of the list with
the cursor put on the one after it. -/
def qdrDeliveryFirstPeerCT (links : PeerLinks ι) (dlv : ι) : Option ι × PeerLinks ι :=
  if qdrDeliveryPeerCountCT links dlv = 0 then (none, links)
  else
    match links.peer dlv with
    | some only => (some only, links)
    | none =>
        match (links.peers dlv).head? with
        | some first =>
            (some first,
              { links with nextPeerRef := Function.update links.nextPeerRef dlv (deqNext (links.peers dlv) first) })
        | none => (none, links)

/-- `qdr_delivery_next_peer_CT`: the peer at the cursor, the cursor moving to
the one after it; nothing for a delivery with one peer pointer. -/
def qdrDeliveryNextPeerCT (links : PeerLinks ι) (dlv : ι) : Option ι × PeerLinks ι :=
  match links.peer dlv with
  | some _ => (none, links)
  | none =>
      match links.nextPeerRef dlv with
      | some next =>
          (some next,
            { links with nextPeerRef := Function.update links.nextPeerRef dlv (deqNext (links.peers dlv) next) })
      | none => (none, links)

/-- A call on the peer links. -/
inductive PeerCall (ι : Type) where
  | linkPeers (inDlv outDlv : ι)
  | unlinkPeers (dlv peer : ι)
  | firstPeer (dlv : ι)
  | nextPeer (dlv : ι)
  deriving DecidableEq, Repr

/-- One call, and the peer it returns. -/
def peerStep (links : PeerLinks ι) : PeerCall ι → Option (Option ι × PeerLinks ι)
  | .linkPeers inDlv outDlv => (qdrDeliveryLinkPeersCT links inDlv outDlv).map fun links => (none, links)
  | .unlinkPeers dlv peer => (qdrDeliveryUnlinkPeersCT links dlv peer).map fun links => (none, links)
  | .firstPeer dlv => some (qdrDeliveryFirstPeerCT links dlv)
  | .nextPeer dlv => some (qdrDeliveryNextPeerCT links dlv)

/-! ### Peers and the invariant -/

namespace PeerLinks

/-- The peers of `dlv`: the pointer's, or the list's. -/
def peersOf (links : PeerLinks ι) (dlv : ι) : List ι :=
  match links.peer dlv with
  | some only => [only]
  | none => links.peers dlv

/-- What the peer links keep. -/
structure Sound (links : PeerLinks ι) : Prop where
  symm : ∀ dlv other, other ∈ links.peersOf dlv ↔ dlv ∈ links.peersOf other
  irrefl : ∀ dlv, dlv ∉ links.peersOf dlv
  single : ∀ dlv, (links.peer dlv).isSome → links.peers dlv = []
  nodup : ∀ dlv, (links.peers dlv).Nodup
  cursor : ∀ dlv next, links.nextPeerRef dlv = some next → next ∈ links.peers dlv
  refs : ∀ dlv, links.peerRefs dlv = (links.peersOf dlv).length

end PeerLinks

/-- The calls the forwarder makes: a link to a fresh delivery other than the
first (the out delivery `qdr_forward_new_delivery_CT` has just made), an unlink
of a linked pair, and any walk of the peers. -/
def PeerCall.Allowed (links : PeerLinks ι) : PeerCall ι → Prop
  | .linkPeers inDlv outDlv => inDlv ≠ outDlv ∧ links.peersOf outDlv = []
  | .unlinkPeers dlv peer => peer ∈ links.peersOf dlv
  | .firstPeer _ => True
  | .nextPeer _ => True

instance PeerCall.decidableAllowed (links : PeerLinks ι) : (call : PeerCall ι) → Decidable (call.Allowed links)
  | .linkPeers inDlv outDlv => inferInstanceAs (Decidable (inDlv ≠ outDlv ∧ links.peersOf outDlv = []))
  | .unlinkPeers dlv peer => inferInstanceAs (Decidable (peer ∈ links.peersOf dlv))
  | .firstPeer _ => inferInstanceAs (Decidable True)
  | .nextPeer _ => inferInstanceAs (Decidable True)

/-! ### What each call does -/

namespace PeerLinks

omit [DecidableEq ι] in
theorem peersOf_eq_nil {links : PeerLinks ι} {dlv : ι} :
    links.peersOf dlv = [] ↔ links.peer dlv = none ∧ links.peers dlv = [] := by
  unfold peersOf
  split <;> simp_all

omit [DecidableEq ι] in
theorem Sound.mem_peersOf {links : PeerLinks ι} (sound : links.Sound) {dlv peer : ι} (listed : peer ∈ links.peers dlv) :
    peer ∈ links.peersOf dlv := by
  unfold peersOf
  split
  · rename_i only hasOnly
    rw [sound.single dlv (by simp [hasOnly])] at listed
    simp at listed
  · exact listed

omit [DecidableEq ι] in
theorem Sound.nodup_peersOf {links : PeerLinks ι} (sound : links.Sound) (dlv : ι) :
    (links.peersOf dlv).Nodup := by
  unfold peersOf
  split
  · simp
  · exact sound.nodup dlv

omit [DecidableEq ι] in
/-- `qdr_delivery_peer_count_CT` counts the peers. -/
theorem peerCount_eq (links : PeerLinks ι) (dlv : ι) :
    qdrDeliveryPeerCountCT links dlv = (links.peersOf dlv).length := by
  unfold qdrDeliveryPeerCountCT peersOf
  cases links.peer dlv <;> simp

omit [DecidableEq ι] in
/-- A delivery with a cursor keeps its peers in its list. -/
theorem Sound.peers_of_cursor {links : PeerLinks ι} (sound : links.Sound) {dlv next : ι}
    (atCursor : links.nextPeerRef dlv = some next) : links.peers dlv = links.peersOf dlv := by
  unfold peersOf
  split
  · rename_i sole hasPeer
    have listed := sound.cursor dlv next atCursor
    rw [sound.single dlv (by simp [hasPeer])] at listed
    simp at listed
  · rfl

omit [DecidableEq ι] in
/-- A delivery with no peers has no cursor. -/
theorem Sound.cursor_of_nil {links : PeerLinks ι} (sound : links.Sound) {dlv : ι} (empty : links.peers dlv = []) :
    links.nextPeerRef dlv = none := by
  cases atCursor : links.nextPeerRef dlv with
  | none => rfl
  | some next => simpa [empty] using sound.cursor dlv next atCursor

/-- What a link of a fresh delivery leaves, field by field. -/
def linked (links : PeerLinks ι) (inDlv outDlv : ι) : PeerLinks ι where
  peer dlv := if dlv = outDlv then some inDlv
    else if dlv = inDlv then (if links.peersOf inDlv = [] then some outDlv else none) else links.peer dlv
  peers dlv := if dlv = inDlv ∧ links.peersOf inDlv ≠ [] then links.peersOf inDlv ++ [outDlv] else links.peers dlv
  nextPeerRef := links.nextPeerRef
  peerRefs dlv := links.peerRefs dlv + (if dlv = inDlv then 1 else 0) + (if dlv = outDlv then 1 else 0)

/-- What an unlink of a linked pair leaves, field by field. -/
def unlinked (links : PeerLinks ι) (dlv peer : ι) : PeerLinks ι where
  peer other := if other = dlv ∨ other = peer then none else links.peer other
  peers other := if other = dlv then (links.peers dlv).erase peer
    else if other = peer then (links.peers peer).erase dlv else links.peers other
  nextPeerRef other :=
    if other = dlv ∧ links.nextPeerRef dlv = some peer then deqNext (links.peers dlv) peer
    else if other = peer ∧ links.nextPeerRef peer = some dlv then deqNext (links.peers peer) dlv
    else links.nextPeerRef other
  peerRefs other := links.peerRefs other - (if other = dlv then 1 else 0) - (if other = peer then 1 else 0)

end PeerLinks

open PeerLinks

/-- A link of a fresh delivery: its one peer is the first, which takes it at
the end of its peers, into its list from the second peer on. -/
theorem linkPeers_eq {links : PeerLinks ι} {inDlv outDlv : ι} (sound : links.Sound)
    (fresh : links.peersOf outDlv = []) :
    qdrDeliveryLinkPeersCT links inDlv outDlv = some (links.linked inDlv outDlv) := by
  obtain ⟨outPeer, outPeers⟩ := peersOf_eq_nil.mp fresh
  rcases hasPeer : links.peer inDlv with _ | first
  · by_cases empty : links.peers inDlv = []
    · -- the first peer goes in the pointer
      have count : qdrDeliveryPeerCountCT links inDlv = 0 := by simp [qdrDeliveryPeerCountCT, hasPeer, empty]
      simp only [qdrDeliveryLinkPeersCT, linked, count, if_true, outPeer, Option.isSome_none, Bool.false_eq_true,
        if_false, Option.map_some, Option.some.injEq, PeerLinks.mk.injEq]
      refine ⟨?_, ?_, trivial, ?_⟩ <;> funext dlv <;> simp only [Function.update_apply, peersOf, hasPeer, empty] <;>
        split_ifs <;> simp_all
    · -- a further peer goes at the end of the list
      have count : qdrDeliveryPeerCountCT links inDlv ≠ 0 := by simp [qdrDeliveryPeerCountCT, hasPeer, empty]
      simp only [qdrDeliveryLinkPeersCT, linked, count, if_false, hasPeer, Option.map_some, Option.some.injEq,
        PeerLinks.mk.injEq]
      refine ⟨?_, ?_, trivial, ?_⟩ <;> funext dlv <;> simp only [Function.update_apply, peersOf, hasPeer] <;>
        split_ifs <;> simp_all
  · -- the second peer: the first moves from the pointer into the list
    have count : qdrDeliveryPeerCountCT links inDlv ≠ 0 := by simp [qdrDeliveryPeerCountCT, hasPeer]
    have single := sound.single inDlv (by simp [hasPeer])
    simp only [qdrDeliveryLinkPeersCT, linked, count, if_false, hasPeer, Option.map_some, Option.some.injEq,
      PeerLinks.mk.injEq]
    refine ⟨?_, ?_, trivial, ?_⟩ <;> funext dlv <;> simp only [Function.update_apply, peersOf, hasPeer] <;>
      split_ifs <;> simp_all

/-- One half of an unlink, on a delivery whose own links are sound: the pointer
cleared, the peer off the list, the cursor moved on if it was on the peer. -/
theorem dropPeerRef_eq {links : PeerLinks ι} {dlv peer : ι} (held : peer ∈ links.peersOf dlv)
    (single : (links.peer dlv).isSome → links.peers dlv = [])
    (cursor : ∀ next, links.nextPeerRef dlv = some next → next ∈ links.peers dlv) :
    dropPeerRef links dlv peer = some { links with
      peer := Function.update links.peer dlv none
      peers := Function.update links.peers dlv ((links.peers dlv).erase peer)
      nextPeerRef :=
        if links.nextPeerRef dlv = some peer then
          Function.update links.nextPeerRef dlv (deqNext (links.peers dlv) peer)
        else links.nextPeerRef } := by
  unfold peersOf at held
  rcases hasPeer : links.peer dlv with _ | sole
  · rw [hasPeer] at held
    simp only [dropPeerRef, hasPeer, if_pos held, Option.some.injEq, PeerLinks.mk.injEq]
    refine ⟨?_, trivial, trivial, trivial⟩
    funext other
    simp only [Function.update_apply]
    split_ifs <;> simp_all
  · -- the one peer: the list is empty, and the cursor off
    rw [hasPeer, List.mem_singleton] at held
    subst held
    have empty := single (by simp [hasPeer])
    have noCursor : links.nextPeerRef dlv ≠ some peer := fun atCursor => by simpa [empty] using cursor _ atCursor
    simp only [dropPeerRef, hasPeer, if_true, if_neg noCursor, Option.some.injEq, PeerLinks.mk.injEq]
    refine ⟨trivial, ?_, trivial, trivial⟩
    funext other
    simp only [Function.update_apply]
    split_ifs <;> simp_all

/-- An unlink of a linked pair: both sides drop the other, a cursor on the
other moving on, and each gives back a reference. -/
theorem unlinkPeers_eq {links : PeerLinks ι} (sound : links.Sound) {dlv peer : ι} (held : peer ∈ links.peersOf dlv) :
    qdrDeliveryUnlinkPeersCT links dlv peer = some (links.unlinked dlv peer) := by
  have apart : peer ≠ dlv := fun same => sound.irrefl dlv (same ▸ held)
  have back : dlv ∈ links.peersOf peer := (sound.symm dlv peer).mp held
  rw [qdrDeliveryUnlinkPeersCT, dropPeerRef_eq held (sound.single dlv) (sound.cursor dlv), Option.bind_some]
  -- the second half sees the first only on `dlv`
  have midPeer : Function.update links.peer dlv none peer = links.peer peer := Function.update_of_ne apart _ _
  have midPeers : Function.update links.peers dlv ((links.peers dlv).erase peer) peer = links.peers peer :=
    Function.update_of_ne apart _ _
  have midCursor : (if links.nextPeerRef dlv = some peer then
      Function.update links.nextPeerRef dlv (deqNext (links.peers dlv) peer) else links.nextPeerRef) peer =
        links.nextPeerRef peer := by
    split_ifs <;> simp [Function.update_of_ne apart]
  rw [dropPeerRef_eq (by simpa [peersOf, midPeer, midPeers] using back)
    (by simpa [midPeer, midPeers] using sound.single peer) (by simpa [midCursor, midPeers] using sound.cursor peer)]
  simp only [unlinked, Option.map_some, Option.some.injEq, PeerLinks.mk.injEq]
  refine ⟨?_, ?_, ?_, ?_⟩ <;> funext other <;> simp only [Function.update_apply] <;> split_ifs <;>
    simp_all [Function.update_apply]

/-! ### The invariant is kept -/

namespace PeerLinks

/-- After a link of a fresh delivery, it has the first as its one peer, and
the first has it after its others. -/
theorem peersOf_linked {links : PeerLinks ι} {inDlv outDlv : ι} (other : inDlv ≠ outDlv) (dlv : ι) :
    (links.linked inDlv outDlv).peersOf dlv =
      if dlv = outDlv then [inDlv] else if dlv = inDlv then links.peersOf inDlv ++ [outDlv] else links.peersOf dlv := by
  by_cases isOut : dlv = outDlv
  · simp [peersOf, linked, isOut]
  by_cases isIn : dlv = inDlv
  · subst isIn
    conv_lhs => rw [peersOf]
    by_cases empty : links.peersOf dlv = []
    · simp [linked, isOut, empty]
    · simp [linked, isOut, empty]
  · simp [peersOf, linked, isOut, isIn]

theorem mem_peersOf_linked {links : PeerLinks ι} {inDlv outDlv : ι} (other : inDlv ≠ outDlv)
    (fresh : links.peersOf outDlv = []) (dlv peer : ι) :
    peer ∈ (links.linked inDlv outDlv).peersOf dlv ↔
      peer ∈ links.peersOf dlv ∨ (dlv = inDlv ∧ peer = outDlv) ∨ (dlv = outDlv ∧ peer = inDlv) := by
  rw [peersOf_linked other]
  split_ifs with isOut isIn
  · subst isOut
    simp [fresh, Ne.symm other]
  · simp [isIn, other]
  · simp [isIn, isOut]

/-- One half of an unlink on a delivery whose links are sound takes the peer
out of its peers. -/
theorem Sound.erase_peers {links : PeerLinks ι} (sound : links.Sound) {dlv peer : ι} (held : peer ∈ links.peersOf dlv) :
    (links.peers dlv).erase peer = (links.peersOf dlv).erase peer := by
  unfold peersOf at held ⊢
  split
  · rename_i sole hasPeer
    rw [hasPeer, List.mem_singleton] at held
    rw [sound.single dlv (by simp [hasPeer]), held]
    simp
  · rfl

theorem peersOf_unlinked {links : PeerLinks ι} (sound : links.Sound) {dlv peer : ι} (held : peer ∈ links.peersOf dlv)
    (other : ι) :
    (links.unlinked dlv peer).peersOf other =
      if other = dlv then (links.peersOf dlv).erase peer
      else if other = peer then (links.peersOf peer).erase dlv else links.peersOf other := by
  have back : dlv ∈ links.peersOf peer := (sound.symm dlv peer).mp held
  by_cases isDlv : other = dlv
  · subst isDlv
    conv_lhs => rw [peersOf]
    simp only [unlinked, true_or, if_true]
    exact sound.erase_peers held
  by_cases isPeer : other = peer
  · subst isPeer
    conv_lhs => rw [peersOf]
    simp only [unlinked, isDlv, or_true, if_true, if_false]
    exact sound.erase_peers back
  · simp [peersOf, unlinked, isDlv, isPeer]

theorem mem_peersOf_unlinked {links : PeerLinks ι} (sound : links.Sound) {dlv peer : ι}
    (held : peer ∈ links.peersOf dlv) (other member : ι) :
    member ∈ (links.unlinked dlv peer).peersOf other ↔
      member ∈ links.peersOf other ∧ ¬ (other = dlv ∧ member = peer) ∧ ¬ (other = peer ∧ member = dlv) := by
  have apart : peer ≠ dlv := fun same => sound.irrefl dlv (same ▸ held)
  rw [peersOf_unlinked sound held]
  split_ifs with isDlv isPeer
  · subst isDlv
    rw [(sound.nodup_peersOf other).mem_erase_iff]
    simp [apart.symm]
    tauto
  · subst isPeer
    rw [(sound.nodup_peersOf other).mem_erase_iff]
    simp [isDlv]
    tauto
  · simp [isDlv, isPeer]

/-- A link of a fresh delivery to another keeps the invariant. -/
theorem Sound.linked {links : PeerLinks ι} (sound : links.Sound) {inDlv outDlv : ι} (other : inDlv ≠ outDlv)
    (fresh : links.peersOf outDlv = []) : (links.linked inDlv outDlv).Sound := by
  obtain ⟨outPeer, outPeers⟩ := peersOf_eq_nil.mp fresh
  have outAbsent : outDlv ∉ links.peersOf inDlv := fun held => by
    simpa [fresh] using (sound.symm inDlv outDlv).mp held
  constructor
  · intro dlv member
    rw [mem_peersOf_linked other fresh, mem_peersOf_linked other fresh, sound.symm]
    tauto
  · intro dlv isPeer
    rw [mem_peersOf_linked other fresh] at isPeer
    rcases isPeer with old | ⟨isIn, isOut⟩ | ⟨isOut, isIn⟩
    · exact sound.irrefl dlv old
    · exact other (isIn.symm.trans isOut)
    · exact other (isIn.symm.trans isOut)
  · intro dlv hasPeer
    by_cases isIn : dlv = inDlv
    · subst isIn
      -- the first's pointer is set only when it had no peer
      have empty : links.peersOf dlv = [] := by
        by_contra notEmpty
        simp [PeerLinks.linked, other, notEmpty] at hasPeer
      simp [PeerLinks.linked, empty, (peersOf_eq_nil.mp empty).2]
    · simp only [PeerLinks.linked, isIn, false_and, if_false]
      by_cases isOut : dlv = outDlv
      · rw [isOut, outPeers]
      · simp only [PeerLinks.linked, isOut, isIn, if_false] at hasPeer
        exact sound.single dlv hasPeer
  · intro dlv
    simp only [PeerLinks.linked]
    split_ifs with extended
    · rw [List.nodup_append]
      exact ⟨sound.nodup_peersOf inDlv, by simp, fun peer held last isLast same => outAbsent (by simp_all)⟩
    · exact sound.nodup dlv
  · intro dlv next atCursor
    have listed := sound.cursor dlv next atCursor
    simp only [PeerLinks.linked]
    split_ifs with extended
    · rw [← extended.1]
      exact List.mem_append_left _ (sound.mem_peersOf listed)
    · exact listed
  · intro dlv
    rw [peersOf_linked other]
    simp only [PeerLinks.linked, sound.refs dlv]
    split_ifs with isOut isIn <;> simp_all

/-- An unlink of a linked pair keeps the invariant. -/
theorem Sound.unlinked {links : PeerLinks ι} (sound : links.Sound) {dlv peer : ι} (held : peer ∈ links.peersOf dlv) :
    (links.unlinked dlv peer).Sound := by
  have apart : peer ≠ dlv := fun same => sound.irrefl dlv (same ▸ held)
  constructor
  · intro other member
    rw [mem_peersOf_unlinked sound held, mem_peersOf_unlinked sound held, sound.symm]
    tauto
  · intro other isPeer
    rw [mem_peersOf_unlinked sound held] at isPeer
    exact sound.irrefl other isPeer.1
  · intro other hasPeer
    by_cases unlinkedHere : other = dlv ∨ other = peer
    · simp [PeerLinks.unlinked, unlinkedHere] at hasPeer
    · have notDlv : other ≠ dlv := fun same => unlinkedHere (Or.inl same)
      have notPeer : other ≠ peer := fun same => unlinkedHere (Or.inr same)
      simp only [PeerLinks.unlinked, if_false, notDlv, notPeer] at hasPeer ⊢
      exact sound.single other hasPeer
  · intro other
    simp only [PeerLinks.unlinked]
    split_ifs
    · exact (sound.nodup dlv).erase peer
    · exact (sound.nodup peer).erase dlv
    · exact sound.nodup other
  · intro other next atCursor
    simp only [PeerLinks.unlinked] at atCursor ⊢
    by_cases movedHere : other = dlv ∧ links.nextPeerRef dlv = some peer
    · -- the cursor on the peer moved to the one after it
      rw [if_pos movedHere] at atCursor
      rw [if_pos movedHere.1]
      exact (List.mem_erase_of_ne (deqNext_ne (sound.nodup dlv) atCursor)).mpr (mem_of_deqNext atCursor)
    rw [if_neg movedHere] at atCursor
    by_cases movedThere : other = peer ∧ links.nextPeerRef peer = some dlv
    · rw [if_pos movedThere] at atCursor
      rw [if_neg (fun same => apart (movedThere.1.symm.trans same)), if_pos movedThere.1]
      exact (List.mem_erase_of_ne (deqNext_ne (sound.nodup peer) atCursor)).mpr (mem_of_deqNext atCursor)
    rw [if_neg movedThere] at atCursor
    have listed := sound.cursor other next atCursor
    split_ifs with isDlv isPeer
    · subst isDlv
      exact (List.mem_erase_of_ne (fun same => movedHere ⟨rfl, by rw [← same]; exact atCursor⟩)).mpr listed
    · subst isPeer
      exact (List.mem_erase_of_ne (fun same => movedThere ⟨rfl, by rw [← same]; exact atCursor⟩)).mpr listed
    · exact listed
  · intro other
    have back : dlv ∈ links.peersOf peer := (sound.symm dlv peer).mp held
    rw [peersOf_unlinked sound held]
    simp only [PeerLinks.unlinked, sound.refs other]
    by_cases isDlv : other = dlv
    · subst isDlv
      simp [Ne.symm apart, List.length_erase_of_mem held]
    by_cases isPeer : other = peer
    · subst isPeer
      simp [isDlv, List.length_erase_of_mem back]
    · simp [isDlv, isPeer]

/-- Moving a cursor to a delivery on the list keeps the invariant. -/
theorem Sound.moveCursor {links : PeerLinks ι} (sound : links.Sound) (dlv : ι) {cursor : Option ι}
    (onList : ∀ next, cursor = some next → next ∈ links.peers dlv) :
    ({ links with nextPeerRef := Function.update links.nextPeerRef dlv cursor } : PeerLinks ι).Sound where
  symm := sound.symm
  irrefl := sound.irrefl
  single := sound.single
  nodup := sound.nodup
  cursor := by
    intro other next atCursor
    by_cases isDlv : other = dlv
    · subst isDlv
      exact onList next (by simpa using atCursor)
    · exact sound.cursor other next (by simpa [Function.update_of_ne isDlv] using atCursor)
  refs := sound.refs

theorem Sound.firstPeer {links : PeerLinks ι} (sound : links.Sound) (dlv : ι) :
    (qdrDeliveryFirstPeerCT links dlv).2.Sound := by
  unfold qdrDeliveryFirstPeerCT
  split_ifs
  · exact sound
  split
  · exact sound
  split
  · exact sound.moveCursor dlv fun next found => mem_of_deqNext found
  · exact sound

theorem Sound.nextPeer {links : PeerLinks ι} (sound : links.Sound) (dlv : ι) :
    (qdrDeliveryNextPeerCT links dlv).2.Sound := by
  unfold qdrDeliveryNextPeerCT
  split
  · exact sound
  split
  · exact sound.moveCursor dlv fun next found => mem_of_deqNext found
  · exact sound

/-- Every allowed call keeps the invariant, and none fails. -/
theorem Sound.step {links : PeerLinks ι} (sound : links.Sound) {call : PeerCall ι} (allowed : call.Allowed links) :
    ∃ answer next, peerStep links call = some (answer, next) ∧ next.Sound := by
  cases call with
  | linkPeers inDlv outDlv =>
      exact ⟨none, _, by rw [peerStep, linkPeers_eq sound allowed.2]; rfl, sound.linked allowed.1 allowed.2⟩
  | unlinkPeers dlv peer =>
      exact ⟨none, _, by rw [peerStep, unlinkPeers_eq sound allowed]; rfl, sound.unlinked allowed⟩
  | firstPeer dlv => exact ⟨_, _, rfl, sound.firstPeer dlv⟩
  | nextPeer dlv => exact ⟨_, _, rfl, sound.nextPeer dlv⟩

end PeerLinks

/-- Every run of allowed calls keeps the invariant, and no call fails. -/
theorem PeerLinks.Sound.run {links : PeerLinks ι} (sound : links.Sound) (calls : List (PeerCall ι))
    (allowed : Mealy.AllowedRun peerStep PeerCall.Allowed links calls) :
    ∃ answers final, Mealy.runPartial peerStep links calls = some (answers, final) ∧ final.Sound :=
  Mealy.runPartial_invariant peerStep (fun _ _ sound allowed => sound.step allowed) calls sound allowed

end DispatchRouter.Delivery
