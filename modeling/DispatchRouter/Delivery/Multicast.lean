/-
# Multicast outcomes

`delivery.c`: an incoming multicast delivery is forwarded to several outgoing
peers, and each remote update on a peer comes back through
`qdr_delivery_mcast_outbound_update_CT`. Its disposition half records the
peer's state and keeps the best terminal outcome reported so far in
`mcast_disposition`, by an ad hoc priority (Rejected, then Accepted, Modified,
Released; Declared taken as Rejected), and copies it to the incoming delivery
once a walk of the peers still linked finds each in a terminal state. Its
settlement half settles the incoming delivery when its last peer settles, and
unlinks the peer.

`McastSound` is what every update keeps: the peer links are sound, every peer
of the incoming delivery has it as its one peer, and the incoming delivery is
settled exactly when no peer is left. Over a run (`McastRun.run`) no update
fails, the running outcome is the best outcome reported, and the disposition
is the best outcome reported up to some update; it changes only on an update
that leaves every peer then linked in a terminal state
(`McastRun.terminal_of_disposition_ne`). The settlement half copies nothing: a
peer that settles last in no terminal state leaves the incoming delivery
settled with no outcome, though another peer had reported one before it
settled (`mcast_settles_without_outcome`).
-/

import DispatchRouter.Delivery.PeerWalk

namespace DispatchRouter.Delivery

open Math PeerLinks

variable {ι : Type} [DecidableEq ι]

/-! ### The model -/

/-- `PN_ACCEPTED`. -/
def pnAccepted : Nat := 0x24

/-- `PN_REJECTED`. -/
def pnRejected : Nat := 0x25

/-- `PN_RELEASED`. -/
def pnReleased : Nat := 0x26

/-- `PN_MODIFIED`. -/
def pnModified : Nat := 0x27

/-- `qd_delivery_state_is_terminal`: an outcome, Declared (`0x33`) among them. -/
def qdDeliveryStateIsTerminal (type : Nat) : Bool :=
  (pnAccepted ≤ type && type ≤ pnModified) || type = 0x33

/-- The `priority` table of `qdr_delivery_mcast_outbound_disposition_CT`, from
`PN_ACCEPTED` on: Accepted, Rejected, Released, Modified. -/
def priority : List Nat := [2, 3, 0, 1]

/-- `priority[disp - PN_ACCEPTED]`; none off the table. -/
def priorityOf (disp : Nat) : Option Nat :=
  if pnAccepted ≤ disp then priority[disp - pnAccepted]? else none

/-- The fields of each `qdr_delivery_t` a multicast update reads and writes:
the peer links, `multicast`, `settled`, `disposition`, `mcast_disposition` and
`remote_disposition`. -/
structure McastDeliveries (ι : Type) where
  links : PeerLinks ι
  multicast : ι → Bool
  settled : ι → Bool
  disposition : ι → Nat
  mcastDisposition : ι → Nat
  remoteDisposition : ι → Nat

/-- The asserts of both halves: `in_dlv` is multicast, and `out_dlv` has it
as its one peer. -/
def McastPeerOk (state : McastDeliveries ι) (inDlv outDlv : ι) : Prop :=
  state.multicast inDlv = true ∧ state.links.peer outDlv = some inDlv ∧ qdrDeliveryPeerCountCT state.links outDlv = 1

instance (state : McastDeliveries ι) (inDlv outDlv : ι) : Decidable (McastPeerOk state inDlv outDlv) :=
  inferInstanceAs (Decidable (_ ∧ _ ∧ _))

/-- The state `qdr_delivery_mcast_outbound_disposition_CT` records: Declared,
of the transaction section, taken as Rejected. -/
def mcastRemoteState (newDisp : Nat) : Nat :=
  if newDisp = 0x33 then pnRejected else newDisp

/-- The running outcome of `qdr_delivery_mcast_outbound_disposition_CT`: a
first terminal outcome is taken, a later one only with a higher priority; none
where the table is read off its end. -/
def raiseMcastDisposition (mcast newDisp : Nat) : Option Nat :=
  if mcast = 0 then some newDisp
  else
    (priorityOf mcast).bind fun oldPriority =>
      (priorityOf newDisp).map fun newPriority => if newPriority > oldPriority then newDisp else mcast

/-- The loop of `qdr_delivery_mcast_outbound_disposition_CT` over the peers of
`inDlv`: the first peer whose remote state is not terminal, or none once the
walk ends. Each round takes one unit of `fuel`. -/
def peerScanLoop (remote : ι → Nat) (inDlv : ι) : Nat → Option ι → PeerLinks ι → Option (Option ι × PeerLinks ι)
  | _, none, links => some (none, links)
  | 0, some _, _ => none
  | fuel + 1, some peer, links =>
      if !qdDeliveryStateIsTerminal (remote peer) then some (some peer, links)
      else peerScanLoop remote inDlv fuel (qdrDeliveryNextPeerCT links inDlv).1 (qdrDeliveryNextPeerCT links inDlv).2

/-- The walk from `qdr_delivery_first_peer_CT` on; a round for each peer is
enough. -/
def peerScan (remote : ι → Nat) (links : PeerLinks ι) (inDlv : ι) : Option (Option ι × PeerLinks ι) :=
  peerScanLoop remote inDlv (qdrDeliveryPeerCountCT links inDlv) (qdrDeliveryFirstPeerCT links inDlv).1
    (qdrDeliveryFirstPeerCT links inDlv).2

/-- `qdr_delivery_mcast_outbound_disposition_CT`: whether `in_dlv` took a new
disposition; none where it asserts. -/
def qdrDeliveryMcastOutboundDispositionCT (state : McastDeliveries ι) (inDlv outDlv : ι) (newDisp : Nat) :
    Option (Bool × McastDeliveries ι) :=
  if McastPeerOk state inDlv outDlv then
    let newDisp := mcastRemoteState newDisp
    let state := { state with remoteDisposition := Function.update state.remoteDisposition outDlv newDisp }
    if qdDeliveryStateIsTerminal newDisp then
      (raiseMcastDisposition (state.mcastDisposition inDlv) newDisp).bind fun mcast =>
        let state := { state with mcastDisposition := Function.update state.mcastDisposition inDlv mcast }
        (peerScan state.remoteDisposition state.links inDlv).map fun scanned =>
          let state := { state with links := scanned.2 }
          -- no peer left that is not terminal
          if scanned.1.isNone then (true, { state with disposition := Function.update state.disposition inDlv mcast })
          else (false, state)
    else some (false, state)
  else none

/-- `qdr_delivery_mcast_outbound_settled_CT`: whether `in_dlv` settled; none
where it asserts. -/
def qdrDeliveryMcastOutboundSettledCT (state : McastDeliveries ι) (inDlv outDlv : ι) :
    Option (Bool × McastDeliveries ι) :=
  if McastPeerOk state inDlv outDlv then
    -- the last peer settles the incoming delivery
    let push := qdrDeliveryPeerCountCT state.links inDlv == 1
    let settled := if push then Function.update state.settled inDlv true else state.settled
    (qdrDeliveryUnlinkPeersCT state.links inDlv outDlv).map fun links =>
      (push, { state with settled := Function.update settled outDlv true, links })
  else none

/-- `qdr_delivery_mcast_outbound_update_CT`: whether `in_dlv` is pushed to
its link; none where it asserts. -/
def qdrDeliveryMcastOutboundUpdateCT (state : McastDeliveries ι) (inDlv outDlv : ι) (newDisp : Nat)
    (settled : Bool) : Option (Bool × McastDeliveries ι) :=
  (qdrDeliveryMcastOutboundDispositionCT state inDlv outDlv newDisp).bind fun disposed =>
    if settled then
      (qdrDeliveryMcastOutboundSettledCT disposed.2 inDlv outDlv).map fun settledIn =>
        (disposed.1 || settledIn.1, settledIn.2)
    else some disposed

/-- A remote update on an outgoing delivery: its new disposition, and whether
it settled. -/
structure McastUpdate (ι : Type) where
  outDlv : ι
  disposition : Nat
  settled : Bool
  deriving DecidableEq, Repr

/-- An update on a peer of `inDlv`. -/
def mcastStep (inDlv : ι) (state : McastDeliveries ι) (update : McastUpdate ι) : Option (Bool × McastDeliveries ι) :=
  qdrDeliveryMcastOutboundUpdateCT state inDlv update.outDlv update.disposition update.settled

/-! ### The priority table and the best outcome -/

/-- The outcome an update reports: Accepted, Rejected, Released or Modified,
Declared counted as Rejected; nothing for a state that is not terminal. -/
def McastUpdate.report (update : McastUpdate ι) : List Nat :=
  if update.disposition = 0x33 then [pnRejected]
  else if pnAccepted ≤ update.disposition ∧ update.disposition ≤ pnModified then [update.disposition] else []

/-- `best` is an outcome of highest priority among those `reported`, or 0 when
none was. -/
structure IsBest (reported : List Nat) (best : Nat) : Prop where
  ranked : ∀ disp ∈ reported, (priorityOf disp).isSome
  nil : reported = [] → best = 0
  mem : reported ≠ [] → best ∈ reported
  top : ∀ disp ∈ reported, (priorityOf disp).getD 0 ≤ (priorityOf best).getD 0

theorem isBest_nil : IsBest [] 0 where
  ranked := by simp
  nil _ := rfl
  mem := by simp
  top := by simp

/-- A terminal state that is not Declared has a place in the table. -/
theorem priorityOf_isSome {disp : Nat} (terminal : qdDeliveryStateIsTerminal disp = true) (notDeclared : disp ≠ 0x33) :
    (priorityOf disp).isSome := by
  have inRange : pnAccepted ≤ disp ∧ disp ≤ pnModified := by
    simpa [qdDeliveryStateIsTerminal, notDeclared] using terminal
  have onTable : disp - pnAccepted < priority.length := by
    simp only [pnAccepted, pnModified, priority, List.length_cons, List.length_nil] at inRange ⊢
    omega
  simp [priorityOf, inRange.1, onTable]

theorem mcastRemoteState_ne_declared (newDisp : Nat) : mcastRemoteState newDisp ≠ 0x33 := by
  unfold mcastRemoteState
  split_ifs with declared
  · decide
  · exact declared

omit [DecidableEq ι] in
/-- The report of an update is the state the code records, if terminal. -/
theorem McastUpdate.report_eq (update : McastUpdate ι) :
    update.report = if qdDeliveryStateIsTerminal (mcastRemoteState update.disposition) then
      [mcastRemoteState update.disposition] else [] := by
  by_cases declared : update.disposition = 0x33
  · simp [McastUpdate.report, mcastRemoteState, declared, qdDeliveryStateIsTerminal, pnRejected, pnAccepted,
      pnModified]
  · simp [McastUpdate.report, mcastRemoteState, declared, qdDeliveryStateIsTerminal]

/-- Raising the running outcome by a new one keeps it the best reported. -/
theorem IsBest.raise {reported : List Nat} {mcast disp : Nat} (best : IsBest reported mcast)
    (ranked : (priorityOf disp).isSome) :
    ∃ raised, raiseMcastDisposition mcast disp = some raised ∧ IsBest (reported ++ [disp]) raised := by
  by_cases none : reported = []
  · -- the first outcome is taken as it is
    subst none
    refine ⟨disp, by simp [raiseMcastDisposition, best.nil rfl], ?_⟩
    exact { ranked := by simpa using ranked, nil := by simp, mem := by simp, top := by simp }
  have mem := best.mem none
  obtain ⟨old, oldIs⟩ := Option.isSome_iff_exists.mp (best.ranked mcast mem)
  obtain ⟨new, newIs⟩ := Option.isSome_iff_exists.mp ranked
  have nonzero : mcast ≠ 0 := by
    rintro rfl
    simp [priorityOf, pnAccepted] at oldIs
  have raisedRank : old ≤ (priorityOf (if new > old then disp else mcast)).getD 0 ∧
      new ≤ (priorityOf (if new > old then disp else mcast)).getD 0 := by
    split_ifs with higher
    · simp only [newIs, Option.getD_some]
      omega
    · simp only [oldIs, Option.getD_some]
      omega
  refine ⟨if new > old then disp else mcast, by simp [raiseMcastDisposition, nonzero, oldIs, newIs], ?_⟩
  constructor
  · intro other isReported
    rcases List.mem_append.mp isReported with earlier | isNew
    · exact best.ranked other earlier
    · rw [List.mem_singleton.mp isNew]
      exact ranked
  · simp
  · intro _
    split_ifs <;> simp [mem]
  · intro other isReported
    rcases List.mem_append.mp isReported with earlier | isNew
    · calc (priorityOf other).getD 0 ≤ (priorityOf mcast).getD 0 := best.top other earlier
        _ = old := by rw [oldIs, Option.getD_some]
        _ ≤ _ := raisedRank.1
    · rw [List.mem_singleton.mp isNew, newIs, Option.getD_some]
      exact raisedRank.2

/-! ### The walk of the peers -/

omit [DecidableEq ι] in
/-- A scan for the first item whose state is not terminal finds none exactly
when every item is terminal. -/
theorem find_not_terminal_isNone (items : List ι) (remote : ι → Nat) :
    (items.find? fun peer => !qdDeliveryStateIsTerminal (remote peer)).isNone =
      items.all fun peer => qdDeliveryStateIsTerminal (remote peer) := by
  induction items with
  | nil => rfl
  | cons first rest ih => cases terminal : qdDeliveryStateIsTerminal (remote first) <;> simp [terminal, ih]

/-- The loop from a peer on, the cursor on the peer after it: the first peer
from there whose state is not terminal, and the cursor moved along the list;
by induction on the peers left. -/
theorem peerScanLoop_eq (remote : ι → Nat) (inDlv : ι) :
    ∀ (rest : List ι) {links : PeerLinks ι} {front : List ι} {peer : ι} {fuel : Nat}, links.Sound →
      links.peersOf inDlv = front ++ peer :: rest → links.nextPeerRef inDlv = rest.head? → rest.length < fuel →
      ∃ cursor, (∀ next, cursor = some next → next ∈ links.peers inDlv) ∧
        peerScanLoop remote inDlv fuel (some peer) links =
          some ((peer :: rest).find? (fun peer => !qdDeliveryStateIsTerminal (remote peer)),
            { links with nextPeerRef := Function.update links.nextPeerRef inDlv cursor })
  | rest, links, front, peer, fuel, sound, peers, cursor, enough => by
      obtain ⟨fuel, rfl⟩ : ∃ left, fuel = left + 1 := ⟨fuel - 1, by omega⟩
      have unmoved : ∀ next, links.nextPeerRef inDlv = some next → next ∈ links.peers inDlv := sound.cursor inDlv
      by_cases terminal : qdDeliveryStateIsTerminal (remote peer) = true
      swap
      · -- a peer that is not terminal ends the walk where it is
        refine ⟨links.nextPeerRef inDlv, unmoved, ?_⟩
        simp [peerScanLoop, terminal]
      cases rest with
      | nil =>
          -- the last peer: the walk finds no next one
          refine ⟨links.nextPeerRef inDlv, unmoved, ?_⟩
          simp [peerScanLoop, terminal, nextPeer_of_cursor_none cursor]
      | cons next more =>
          -- the next peer, the cursor moved on to the one after it
          have split : links.peersOf inDlv = (front ++ [peer]) ++ next :: more := by simpa using peers
          have atNext : links.nextPeerRef inDlv = some next := by simpa using cursor
          set moved : PeerLinks ι := { links with nextPeerRef := Function.update links.nextPeerRef inDlv more.head? }
          have movedSound : moved.Sound := sound.moveCursor inDlv fun later isLater => by
            rw [sound.peers_of_cursor atNext, split]
            exact List.mem_append_right _ (List.mem_cons_of_mem _ (List.mem_of_mem_head? isLater))
          obtain ⟨cursor', onList, ran⟩ := peerScanLoop_eq remote inDlv more movedSound
            (show moved.peersOf inDlv = _ from split) (by simp [moved]) (by simpa using enough)
          refine ⟨cursor', onList, ?_⟩
          simp [peerScanLoop, terminal, nextPeer_cons sound split atNext, ran, moved]

/-- The walk of all the peers of `inDlv`: the first whose state is not
terminal, and the cursor moved along the list. -/
theorem peerScan_eq {links : PeerLinks ι} (sound : links.Sound) (remote : ι → Nat) (inDlv : ι) :
    ∃ cursor, (∀ next, cursor = some next → next ∈ links.peers inDlv) ∧
      peerScan remote links inDlv =
        some ((links.peersOf inDlv).find? (fun peer => !qdDeliveryStateIsTerminal (remote peer)),
          { links with nextPeerRef := Function.update links.nextPeerRef inDlv cursor }) := by
  rcases peers : links.peersOf inDlv with _ | ⟨first, rest⟩
  · -- no peers: the walk ends at once
    have count : qdrDeliveryPeerCountCT links inDlv = 0 := by simp [peerCount_eq, peers]
    refine ⟨links.nextPeerRef inDlv, sound.cursor inDlv, ?_⟩
    simp [peerScan, qdrDeliveryFirstPeerCT, count, peerScanLoop]
  have restListed : ∀ later ∈ rest, later ∈ links.peers inDlv := by
    intro later isLater
    rcases hasPeer : links.peer inDlv with _ | sole
    · have listed : links.peers inDlv = first :: rest := by simpa [peersOf, hasPeer] using peers
      rw [listed]
      exact List.mem_cons_of_mem _ isLater
    · obtain ⟨-, rfl⟩ : sole = first ∧ [] = rest := by simpa [peersOf, hasPeer] using peers
      simp at isLater
  set started : PeerLinks ι := { links with nextPeerRef := Function.update links.nextPeerRef inDlv rest.head? }
  have startedSound : started.Sound :=
    sound.moveCursor inDlv fun later isLater => restListed later (List.mem_of_mem_head? isLater)
  obtain ⟨cursor, onList, ran⟩ := peerScanLoop_eq remote inDlv rest startedSound
    (show started.peersOf inDlv = [] ++ first :: rest from peers) (by simp [started])
    (show rest.length < qdrDeliveryPeerCountCT links inDlv by simp [peerCount_eq, peers])
  refine ⟨cursor, onList, ?_⟩
  simp [peerScan, firstPeer_cons sound peers, ran, started]

/-! ### What an update does -/

namespace McastDeliveries

/-- Whether every peer of `inDlv` holds a terminal state. -/
def peersTerminal (state : McastDeliveries ι) (inDlv : ι) : Bool :=
  (state.links.peersOf inDlv).all fun peer => qdDeliveryStateIsTerminal (state.remoteDisposition peer)

/-- What the disposition half leaves, field by field: the state `disp` of the
peer recorded, the running outcome `raised`, copied to the disposition if
every peer is then terminal, and the walk's cursor at `cursor`. -/
def disposed (state : McastDeliveries ι) (inDlv outDlv : ι) (disp raised : Nat) (cursor : Option ι) :
    McastDeliveries ι :=
  { state with
    remoteDisposition := Function.update state.remoteDisposition outDlv disp
    links := { state.links with nextPeerRef := Function.update state.links.nextPeerRef inDlv cursor }
    mcastDisposition := Function.update state.mcastDisposition inDlv raised
    disposition :=
      if (state.links.peersOf inDlv).all fun peer =>
          qdDeliveryStateIsTerminal (Function.update state.remoteDisposition outDlv disp peer) then
        Function.update state.disposition inDlv raised
      else state.disposition }

@[simp] theorem disposed_peersTerminal (state : McastDeliveries ι) (inDlv outDlv : ι) (disp raised : Nat)
    (cursor : Option ι) :
    (state.disposed inDlv outDlv disp raised cursor).peersTerminal inDlv =
      (state.links.peersOf inDlv).all fun peer =>
        qdDeliveryStateIsTerminal (Function.update state.remoteDisposition outDlv disp peer) := rfl

@[simp] theorem disposed_mcastDisposition_self (state : McastDeliveries ι) (inDlv outDlv : ι) (disp raised : Nat)
    (cursor : Option ι) : (state.disposed inDlv outDlv disp raised cursor).mcastDisposition inDlv = raised := by
  simp [disposed]

@[simp] theorem disposed_disposition_self (state : McastDeliveries ι) (inDlv outDlv : ι) (disp raised : Nat)
    (cursor : Option ι) :
    (state.disposed inDlv outDlv disp raised cursor).disposition inDlv =
      if (state.links.peersOf inDlv).all fun peer =>
          qdDeliveryStateIsTerminal (Function.update state.remoteDisposition outDlv disp peer) then raised
      else state.disposition inDlv := by
  unfold disposed
  split_ifs <;> simp

@[simp] theorem disposed_remoteDisposition (state : McastDeliveries ι) (inDlv outDlv : ι) (disp raised : Nat)
    (cursor : Option ι) :
    (state.disposed inDlv outDlv disp raised cursor).remoteDisposition =
      Function.update state.remoteDisposition outDlv disp := rfl

/-- What the settlement half leaves, field by field: the peer settled and
unlinked, and the incoming delivery settled if the peer was its last. -/
def settledOut (state : McastDeliveries ι) (inDlv outDlv : ι) : McastDeliveries ι :=
  { state with
    settled := Function.update
      (if (state.links.peersOf inDlv).length = 1 then Function.update state.settled inDlv true else state.settled)
      outDlv true
    links := state.links.unlinked inDlv outDlv }

/-- The settlement half, if taken, leaves the outcomes and the remote states
alone. -/
theorem settledOut_outcomes (settles : Bool) (state : McastDeliveries ι) (inDlv outDlv : ι) :
    (if settles then state.settledOut inDlv outDlv else state).mcastDisposition = state.mcastDisposition ∧
      (if settles then state.settledOut inDlv outDlv else state).disposition = state.disposition ∧
      (if settles then state.settledOut inDlv outDlv else state).remoteDisposition = state.remoteDisposition := by
  cases settles <;> exact ⟨rfl, rfl, rfl⟩

end McastDeliveries

open McastDeliveries

omit [DecidableEq ι] in
/-- A peer of a delivery through the one pointer is on its peers. -/
theorem mem_peersOf_of_peer {links : PeerLinks ι} (sound : links.Sound) {inDlv outDlv : ι}
    (pointer : links.peer outDlv = some inDlv) : outDlv ∈ links.peersOf inDlv :=
  (sound.symm inDlv outDlv).mpr (by simp [peersOf, pointer])

/-- The disposition half on a peer of `inDlv`: the state recorded, the running
outcome raised for a terminal one, and the walk's cursor moved. -/
theorem dispositionCT_eq {state : McastDeliveries ι} {inDlv outDlv : ι} (ok : McastPeerOk state inDlv outDlv)
    (sound : state.links.Sound) (newDisp : Nat) {raised : Nat}
    (raising : if qdDeliveryStateIsTerminal (mcastRemoteState newDisp) then
      raiseMcastDisposition (state.mcastDisposition inDlv) (mcastRemoteState newDisp) = some raised
      else raised = state.mcastDisposition inDlv) :
    ∃ cursor, (∀ next, cursor = some next → next ∈ state.links.peers inDlv) ∧
      qdrDeliveryMcastOutboundDispositionCT state inDlv outDlv newDisp =
        some ((state.disposed inDlv outDlv (mcastRemoteState newDisp) raised cursor).peersTerminal inDlv,
          state.disposed inDlv outDlv (mcastRemoteState newDisp) raised cursor) := by
  set disp := mcastRemoteState newDisp with dispIs
  by_cases terminal : qdDeliveryStateIsTerminal disp = true
  · -- the walk decides whether the outcome is copied
    rw [if_pos terminal] at raising
    obtain ⟨cursor, onList, scanned⟩ := peerScan_eq sound (Function.update state.remoteDisposition outDlv disp) inDlv
    refine ⟨cursor, onList, ?_⟩
    simp only [qdrDeliveryMcastOutboundDispositionCT, if_pos ok, ← dispIs, terminal, if_true, raising,
      Option.bind_some, scanned, Option.map_some, find_not_terminal_isNone, disposed_peersTerminal]
    unfold disposed
    split_ifs with allTerminal <;> simp [allTerminal]
  · -- a state that is not terminal is only recorded: `outDlv` itself is a
    -- peer that is not terminal
    rw [if_neg terminal] at raising
    refine ⟨state.links.nextPeerRef inDlv, sound.cursor inDlv, ?_⟩
    have notAll : ((state.links.peersOf inDlv).all fun peer =>
        qdDeliveryStateIsTerminal (Function.update state.remoteDisposition outDlv disp peer)) = false := by
      rw [List.all_eq_false]
      exact ⟨outDlv, mem_peersOf_of_peer sound ok.2.1, by simpa using terminal⟩
    simp [qdrDeliveryMcastOutboundDispositionCT, if_pos ok, ← dispIs, terminal, disposed, peersTerminal, notAll, raising]

/-- The settlement half on a peer of `inDlv`. -/
theorem settledCT_eq {state : McastDeliveries ι} {inDlv outDlv : ι} (ok : McastPeerOk state inDlv outDlv)
    (sound : state.links.Sound) :
    qdrDeliveryMcastOutboundSettledCT state inDlv outDlv =
      some ((state.links.peersOf inDlv).length == 1, state.settledOut inDlv outDlv) := by
  simp [qdrDeliveryMcastOutboundSettledCT, if_pos ok, peerCount_eq, unlinkPeers_eq sound (mem_peersOf_of_peer sound ok.2.1),
    settledOut]

/-! ### What a run keeps -/

/-- What every update on a peer of `inDlv` keeps: sound links, `inDlv`
multicast and the one peer of each of its peers, and `inDlv` settled exactly
when it has no peer left. -/
structure McastSound (state : McastDeliveries ι) (inDlv : ι) : Prop where
  linksSound : state.links.Sound
  multicast : state.multicast inDlv = true
  onePeer : ∀ outDlv ∈ state.links.peersOf inDlv, state.links.peer outDlv = some inDlv
  settled : state.settled inDlv = true ↔ state.links.peersOf inDlv = []

variable {state : McastDeliveries ι} {inDlv outDlv : ι}

omit [DecidableEq ι] in
/-- On a peer of a sound incoming delivery neither half asserts. -/
theorem McastSound.peerOk (sound : McastSound state inDlv) (held : outDlv ∈ state.links.peersOf inDlv) :
    McastPeerOk state inDlv outDlv := by
  have pointer := sound.onePeer outDlv held
  refine ⟨sound.multicast, pointer, ?_⟩
  simp [peerCount_eq, peersOf, pointer]

/-- The disposition half changes no link but the walk's cursor. -/
theorem McastSound.disposed (sound : McastSound state inDlv) (disp raised : Nat) {cursor : Option ι}
    (onList : ∀ next, cursor = some next → next ∈ state.links.peers inDlv) :
    McastSound (state.disposed inDlv outDlv disp raised cursor) inDlv where
  linksSound := sound.linksSound.moveCursor inDlv onList
  multicast := sound.multicast
  onePeer := sound.onePeer
  settled := sound.settled

/-- The settlement half unlinks the peer, and settles `inDlv` with its last. -/
theorem McastSound.settledOut (sound : McastSound state inDlv) (held : outDlv ∈ state.links.peersOf inDlv) :
    McastSound (state.settledOut inDlv outDlv) inDlv := by
  have links := sound.linksSound
  have apart : outDlv ≠ inDlv := fun same => links.irrefl inDlv (same ▸ held)
  have erased : (state.links.unlinked inDlv outDlv).peersOf inDlv = (state.links.peersOf inDlv).erase outDlv := by
    rw [peersOf_unlinked links held, if_pos rfl]
  refine ⟨links.unlinked held, sound.multicast, fun other isPeer => ?_, ?_⟩
  · -- the other peers keep their pointer to `inDlv`
    obtain ⟨wasPeer, notOut, -⟩ := (mem_peersOf_unlinked links held inDlv other).mp isPeer
    have otherApart : other ≠ outDlv := fun same => notOut ⟨rfl, same⟩
    have otherNotIn : other ≠ inDlv := fun same => links.irrefl inDlv (same ▸ wasPeer)
    simp [McastDeliveries.settledOut, PeerLinks.unlinked, otherApart, otherNotIn, sound.onePeer other wasPeer]
  · -- settled exactly when the peer was the last
    simp only [McastDeliveries.settledOut, Function.update_of_ne (Ne.symm apart), erased]
    by_cases last : (state.links.peersOf inDlv).length = 1
    · obtain ⟨only, isOnly⟩ := List.length_eq_one_iff.mp last
      rw [isOnly, List.mem_singleton] at held
      simp [isOnly, held]
    · have left : (state.links.peersOf inDlv).erase outDlv ≠ [] := by
        intro empty
        have := List.length_erase_of_mem held
        rw [empty] at this
        have := List.length_pos_of_mem held
        simp at *
        omega
      have notNil : state.links.peersOf inDlv ≠ [] := List.ne_nil_of_mem held
      simp [last, left, sound.settled, notNil]

/-- An update on a peer of `inDlv`: the disposition half, then the
settlement half if the peer settled. -/
theorem mcastStep_eq (sound : McastSound state inDlv) {update : McastUpdate ι}
    (held : update.outDlv ∈ state.links.peersOf inDlv) {raised : Nat}
    (raising : if qdDeliveryStateIsTerminal (mcastRemoteState update.disposition) then
      raiseMcastDisposition (state.mcastDisposition inDlv) (mcastRemoteState update.disposition) = some raised
      else raised = state.mcastDisposition inDlv) :
    ∃ cursor, (∀ next, cursor = some next → next ∈ state.links.peers inDlv) ∧
      mcastStep inDlv state update =
        some ((state.disposed inDlv update.outDlv (mcastRemoteState update.disposition) raised cursor).peersTerminal
            inDlv || (update.settled && (state.links.peersOf inDlv).length == 1),
          if update.settled then
            (state.disposed inDlv update.outDlv (mcastRemoteState update.disposition) raised cursor).settledOut inDlv
              update.outDlv
          else state.disposed inDlv update.outDlv (mcastRemoteState update.disposition) raised cursor) := by
  obtain ⟨cursor, onList, disposedIs⟩ :=
    dispositionCT_eq (sound.peerOk held) sound.linksSound update.disposition raising
  refine ⟨cursor, onList, ?_⟩
  have disposedSound :
      McastSound (state.disposed inDlv update.outDlv (mcastRemoteState update.disposition) raised cursor) inDlv :=
    sound.disposed (mcastRemoteState update.disposition) raised onList
  unfold mcastStep qdrDeliveryMcastOutboundUpdateCT
  rw [disposedIs, Option.bind_some]
  cases update.settled with
  | false => simp
  | true =>
      rw [settledCT_eq (disposedSound.peerOk held) disposedSound.linksSound]
      simp only [Option.map_some, Bool.true_and, if_true]
      rfl

/-- An update on a peer of `inDlv`. -/
def McastUpdate.Allowed (inDlv : ι) (state : McastDeliveries ι) (update : McastUpdate ι) : Prop :=
  update.outDlv ∈ state.links.peersOf inDlv

/-- What a run of updates on the peers of `inDlv` keeps over the updates
`taken` so far: `McastSound`, the running outcome the best of the outcomes
reported, and the disposition the best of those reported up to some update. -/
structure McastRun (inDlv : ι) (taken : List (McastUpdate ι)) (state : McastDeliveries ι) : Prop where
  sound : McastSound state inDlv
  mcast_best : IsBest (taken.flatMap McastUpdate.report) (state.mcastDisposition inDlv)
  disposition_best :
    ∃ n ≤ taken.length, IsBest ((taken.take n).flatMap McastUpdate.report) (state.disposition inDlv)

omit [DecidableEq ι] in
/-- The running outcome an update leaves: raised by a terminal state, and the
best reported with it. -/
theorem McastRun.raising {taken : List (McastUpdate ι)} (running : McastRun inDlv taken state)
    (update : McastUpdate ι) :
    ∃ raised, (if qdDeliveryStateIsTerminal (mcastRemoteState update.disposition) then
      raiseMcastDisposition (state.mcastDisposition inDlv) (mcastRemoteState update.disposition) = some raised
      else raised = state.mcastDisposition inDlv) ∧
      IsBest (taken.flatMap McastUpdate.report ++ update.report) raised := by
  rw [update.report_eq]
  split_ifs with terminal
  · exact running.mcast_best.raise (priorityOf_isSome terminal (mcastRemoteState_ne_declared _))
  · exact ⟨_, rfl, by simpa using running.mcast_best⟩

/-- Every update on a peer of `inDlv` keeps `McastRun`, and none fails. -/
theorem McastRun.step {taken : List (McastUpdate ι)} (running : McastRun inDlv taken state)
    {update : McastUpdate ι} (allowed : update.Allowed inDlv state) :
    ∃ push next, mcastStep inDlv state update = some (push, next) ∧ McastRun inDlv (taken ++ [update]) next := by
  obtain ⟨raised, raising, best⟩ := running.raising update
  obtain ⟨cursor, onList, stepped⟩ := mcastStep_eq running.sound allowed raising
  refine ⟨_, _, stepped, ?_⟩
  set disposedState := state.disposed inDlv update.outDlv (mcastRemoteState update.disposition) raised cursor
  have disposedSound : McastSound disposedState inDlv := running.sound.disposed _ raised onList
  obtain ⟨sameMcast, sameDisposition, -⟩ := settledOut_outcomes update.settled disposedState inDlv update.outDlv
  have reports : (taken ++ [update]).flatMap McastUpdate.report =
      taken.flatMap McastUpdate.report ++ update.report := by simp
  refine ⟨?_, ?_, ?_⟩
  · split_ifs
    · exact disposedSound.settledOut allowed
    · exact disposedSound
  · rw [sameMcast, reports, disposed_mcastDisposition_self]
    exact best
  · rw [sameDisposition, disposed_disposition_self]
    split_ifs
    · -- the outcome copied is the best of every update so far
      refine ⟨taken.length + 1, by simp, ?_⟩
      rwa [List.take_of_length_le (by simp), reports]
    · -- the disposition stays the best of the updates up to some earlier one
      obtain ⟨n, le, isBest⟩ := running.disposition_best
      exact ⟨n, by simp; omega, by rwa [List.take_append_of_le_length le]⟩

/-- Every run of updates on the peers of a sound incoming delivery with no
outcome yet goes through, and ends as `McastRun` says over all its updates. -/
theorem McastRun.run (start : McastSound state inDlv) (fresh : state.mcastDisposition inDlv = 0)
    (blank : state.disposition inDlv = 0) (updates : List (McastUpdate ι))
    (allowed : Mealy.AllowedRun (mcastStep inDlv) (McastUpdate.Allowed inDlv) state updates) :
    ∃ pushes final, Mealy.runPartial (mcastStep inDlv) state updates = some (pushes, final) ∧
      McastRun inDlv updates final := by
  have begun : McastRun inDlv [] state :=
    ⟨start, by simpa [fresh] using isBest_nil, ⟨0, Nat.zero_le _, by simpa [blank] using isBest_nil⟩⟩
  obtain ⟨pushes, final, ran, ended⟩ :=
    @Mealy.runPartial_invariant_taken (McastDeliveries ι) (McastUpdate ι) Bool (mcastStep inDlv) (McastRun inDlv)
      (McastUpdate.Allowed inDlv) (fun _ _ _ running allowed => running.step allowed) updates [] state begun allowed
  exact ⟨pushes, final, ran, by simpa using ended⟩

/-- The disposition of `inDlv` changes only on an update after which every
peer linked to it before the update holds a terminal state. -/
theorem McastRun.terminal_of_disposition_ne {taken : List (McastUpdate ι)} (running : McastRun inDlv taken state)
    {update : McastUpdate ι} (allowed : update.Allowed inDlv state) {push : Bool} {next : McastDeliveries ι}
    (stepped : mcastStep inDlv state update = some (push, next))
    (changed : next.disposition inDlv ≠ state.disposition inDlv) :
    ∀ peer ∈ state.links.peersOf inDlv, qdDeliveryStateIsTerminal (next.remoteDisposition peer) = true := by
  obtain ⟨raised, raising, -⟩ := running.raising update
  obtain ⟨cursor, -, stepIs⟩ := mcastStep_eq running.sound allowed raising
  rw [stepIs, Option.some.injEq, Prod.mk.injEq] at stepped
  obtain ⟨-, rfl⟩ := stepped
  obtain ⟨-, sameDisposition, sameRemote⟩ := settledOut_outcomes update.settled
    (state.disposed inDlv update.outDlv (mcastRemoteState update.disposition) raised cursor) inDlv update.outDlv
  rw [sameDisposition, disposed_disposition_self] at changed
  rw [sameRemote, disposed_remoteDisposition]
  -- the disposition moved, so the walk found every peer terminal
  split_ifs at changed with allTerminal
  · exact List.all_eq_true.mp allTerminal
  · exact absurd rfl changed

/-- The incoming delivery `0` with the outgoing peers `1` and `2`, as two links
of fresh deliveries leave it: peer `1` accepts and settles, then peer `2`
settles in no terminal state. The incoming delivery is settled and pushed with
disposition 0, though peer `1` had accepted it. -/
theorem mcast_settles_without_outcome :
    ((qdrDeliveryLinkPeersCT PeerLinks.initial 0 1).bind fun links => qdrDeliveryLinkPeersCT links 0 2).bind
        (fun links => (Mealy.runPartial (mcastStep 0)
          ⟨links, fun dlv => dlv == 0, fun _ => false, fun _ => 0, fun _ => 0, fun _ => 0⟩
          [⟨1, pnAccepted, true⟩, ⟨2, 0, true⟩]).map
            fun ran => (ran.1, ran.2.settled 0, ran.2.disposition 0, ran.2.mcastDisposition 0)) =
      some ([false, true], true, 0, pnAccepted) := by
  decide +kernel

end DispatchRouter.Delivery
