/-
# Edge address tracking

`edge_addr_tracking.c`: an interior router tells each edge router attached to
it, over the edge's address-tracking link, whether the interior can deliver
what the edge sends to a mobile address: a message with the address and an
`insert_addr` flag, which the edge's proxy applies by binding or unbinding its
link to the address. The module keeps no view of its own. The binding of local
receivers (`qdr_core_bind_address_link_CT`, `qdr_core_unbind_address_link_CT`)
and the mobile sync of remote routers raise address events when the count of
destinations crosses a threshold, and `on_addr_event` tells every edge data
link of the address, those `qdrc_can_send_address` lets through, or the one on
the connection of the first receiver. The attach of an edge's data link tells
that edge at once (`on_link_event`).

An edge should hold that the interior can deliver exactly when the address has
a remote router or a local receiver on another connection than the edge's
(`HasDestinationBeyond`). Its view is the flag of the last message its
connection was sent since its data link attached. Where no edge connection
carries two receivers for the address, as an edge router's proxy attaches one
link for all its receivers, every event keeps each edge's view equal to what it
should hold (`Agrees.run`). `qdrc_can_send_address` counts receivers, not the
connections they are on: two receivers on one edge connection make it tell that
edge the interior can deliver, though every destination is back through the
edge (`edge_told_of_own_receivers`).

The module's endpoint states are fixed for a run and open: the attach, close
and reference counts of the tracking links are left out, and with them the
`closed` checks. So are the address events the module ignores, incoming links
that are not edge data links, and the creation and deletion of the address.
-/

import Mathlib.Data.Finset.Card
import Mathlib.Tactic.SplitIfs
import DispatchRouter.Math.Mealy
import DispatchRouter.Math.Writes

namespace DispatchRouter.Router

open Math

/-! ### The model -/

/-- A `qdr_link_t`, known by its identity, with `link->conn`. -/
structure Link where
  id : Nat
  conn : Nat
  deriving DecidableEq, Repr

/-- An entry of `addr->inlinks`: the link, and whether its `edge_context` is
set. -/
structure InLink where
  link : Link
  edgeContext : Bool
  deriving DecidableEq, Repr

/-- One address as the module sees it: whether its key is mobile,
`DEQ_SIZE(subscriptions)`, `rlinks`, the mask bits of `rnodes` and `inlinks`;
and the connections of the module's `endpoint_state_list`, each with its
tracking link open. -/
structure Tracking where
  mobile : Bool
  subscriptions : Nat
  rlinks : List Link
  rnodes : Finset Nat
  inlinks : List InLink
  endpoints : List Nat
  deriving DecidableEq

/-- The address events `on_addr_event` handles. -/
inductive AddrEvent
  | becameLocalDest
  | becameDest
  | noLongerDest
  | noLongerLocalDest
  | oneLocalDest
  | twoDest
  deriving DecidableEq, Repr

/-- `qdrc_can_send_address`. -/
def qdrcCanSendAddress (addr : Tracking) (conn : Nat) : Bool :=
  -- a receiver for the address somewhere in the router network
  if 1 < addr.rlinks.length ∨ 0 < addr.rnodes.card then true
  else
    match addr.rlinks with
    | [head] => head.conn != conn
    | _ => false

/-- The connection of each inlink with an edge context, in the order of
`addr->inlinks`: where the loops of `on_addr_event` send. -/
def edgeContextConns (addr : Tracking) : List Nat :=
  (addr.inlinks.filter (·.edgeContext)).map (·.link.conn)

/-- A loop of `on_addr_event` over every edge context: `insertAddr` sent to
each connection `pred` lets through. -/
def tellEdges (addr : Tracking) (pred : Nat → Bool) (insertAddr : Bool) : List (Nat × Bool) :=
  ((edgeContextConns addr).filter pred).map fun conn => (conn, insertAddr)

/-- A loop of `on_addr_event` that stops at the first edge context on the
connection of the receiver `head`. -/
def tellReceiverEdge (addr : Tracking) (head : Link) (insertAddr : Bool) : List (Nat × Bool) :=
  ((edgeContextConns addr).find? (· == head.conn)).toList.map fun conn => (conn, insertAddr)

/-- `on_addr_event`: the messages `qdrc_send_message` sends, each the
connection of its endpoint and `insert_addr`; none where
`QDRC_EVENT_ADDR_ONE_LOCAL_DEST` asserts one receiver or
`QDRC_EVENT_ADDR_TWO_DEST` reads the head of an empty list. -/
def onAddrEvent (addr : Tracking) (event : AddrEvent) : Option (List (Nat × Bool)) :=
  if !addr.mobile then some []
  else
    match event with
    | .becameLocalDest =>
        -- an address with remote destinations is known to the edges already
        some (if addr.rnodes.card = 0 then tellEdges addr (qdrcCanSendAddress addr) true else [])
    | .becameDest => some (tellEdges addr (qdrcCanSendAddress addr) true)
    | .noLongerDest | .noLongerLocalDest =>
        some (if addr.rnodes.card = 0 then tellEdges addr (fun _ => true) false else [])
    | .oneLocalDest =>
        if addr.rlinks.length = 1 then addr.rlinks.head?.map fun head => tellReceiverEdge addr head false
        else none
    | .twoDest => addr.rlinks.head?.map fun head => tellReceiverEdge addr head true

/-- `qdrc_event_addr_raise` of an event the module handles. -/
def qdrcEventAddrRaise (addr : Tracking) (event : AddrEvent) : Option (List (Nat × Bool) × Tracking) :=
  (onAddrEvent addr event).map fun messages => (messages, addr)

/-- `qdr_add_link_ref`: a link already on the list stays where it is. -/
def qdrAddLinkRef (refs : List Link) (link : Link) : List Link :=
  if link ∈ refs then refs else refs ++ [link]

/-- `qdr_core_bind_address_link_CT` for a receiving link, with the events it
raises handled. -/
def qdrCoreBindAddressLinkCT (addr : Tracking) (link : Link) : Option (List (Nat × Bool) × Tracking) :=
  let addr := { addr with rlinks := qdrAddLinkRef addr.rlinks link }
  if addr.rlinks.length = 1 then qdrcEventAddrRaise addr .becameLocalDest
  else if addr.rlinks.length = 2 ∧ addr.rnodes.card = 0 then qdrcEventAddrRaise addr .twoDest
  else some ([], addr)

/-- `qdr_core_unbind_address_link_CT` for a receiving link, which
`qdr_del_link_ref` takes off `rlinks`, with the events it raises handled. -/
def qdrCoreUnbindAddressLinkCT (addr : Tracking) (link : Link) : Option (List (Nat × Bool) × Tracking) :=
  let addr := { addr with rlinks := addr.rlinks.erase link }
  if addr.rlinks.length = 0 then qdrcEventAddrRaise addr .noLongerLocalDest
  else if addr.rlinks.length = 1 ∧ addr.rnodes.card = 0 then qdrcEventAddrRaise addr .oneLocalDest
  else some ([], addr)

/-- The add list of `qcm_mobile_sync_on_mau_CT` mapping the address to the
router of `maskBit`. -/
def qcmMobileSyncOnMauAdd (addr : Tracking) (maskBit : Nat) : Option (List (Nat × Bool) × Tracking) :=
  if maskBit ∉ addr.rnodes then
    let addr := { addr with rnodes := insert maskBit addr.rnodes }
    -- the first destination, or a second beside one local receiver
    if addr.rnodes.card + addr.rlinks.length = 1 then qdrcEventAddrRaise addr .becameDest
    else if addr.rnodes.card = 1 ∧ addr.rlinks.length = 1 then qdrcEventAddrRaise addr .twoDest
    else some ([], addr)
  else some ([], addr)

/-- The unmapping of the address from the router of `maskBit`, the same in the
delete list and the absolute list of `qcm_mobile_sync_on_mau_CT` and in
`qcm_mobile_sync_on_router_flush_CT`. -/
def qcmMobileSyncUnmap (addr : Tracking) (maskBit : Nat) : Option (List (Nat × Bool) × Tracking) :=
  if maskBit ∈ addr.rnodes then
    let addr := { addr with rnodes := addr.rnodes.erase maskBit }
    -- the last destination, or all but one local receiver
    if addr.rnodes.card + addr.rlinks.length = 0 then qdrcEventAddrRaise addr .noLongerDest
    else if addr.rnodes.card = 0 ∧ addr.rlinks.length = 1 then qdrcEventAddrRaise addr .oneLocalDest
    else some ([], addr)
  else some ([], addr)

/-- `qdr_add_link_ref` on `inlinks`, for an incoming link. -/
def qdrAddInLinkRef (inlinks : List InLink) (link : Link) : List InLink :=
  if inlinks.any (·.link == link) then inlinks else inlinks ++ [⟨link, false⟩]

/-- `on_link_event` for `QDRC_EVENT_LINK_EDGE_DATA_ATTACHED`, raised once an
incoming link on an edge connection is bound to the address; none where
`edge_context` is asserted unset. -/
def onEdgeDataAttached (addr : Tracking) (link : Link) : Option (List (Nat × Bool) × Tracking) :=
  if addr.mobile ∧ addr.subscriptions = 0 ∧ link.conn ∈ addr.endpoints then
    if addr.inlinks.any fun entry => entry.link == link && entry.edgeContext then none
    else
      let addr := { addr with
        inlinks := addr.inlinks.map fun entry => if entry.link = link then { entry with edgeContext := true } else entry }
      some (if qdrcCanSendAddress addr link.conn then [(link.conn, true)] else [], addr)
  else some ([], addr)

/-- What the module sees happen to the address. -/
inductive TrackingCall
  | bindReceiver (link : Link)
  | unbindReceiver (link : Link)
  | mapRouter (maskBit : Nat)
  | unmapRouter (maskBit : Nat)
  | attachEdgeData (link : Link)
  | detachEdgeData (link : Link)
  deriving DecidableEq, Repr

/-- A call and the messages it sends; none where it asserts. An edge data
link is bound and then heralded; its detach takes it off `inlinks`, and
`QDRC_EVENT_LINK_EDGE_DATA_DETACHED` clears its edge context with it. -/
def trackingStep (addr : Tracking) : TrackingCall → Option (List (Nat × Bool) × Tracking)
  | .bindReceiver link => qdrCoreBindAddressLinkCT addr link
  | .unbindReceiver link => qdrCoreUnbindAddressLinkCT addr link
  | .mapRouter maskBit => qcmMobileSyncOnMauAdd addr maskBit
  | .unmapRouter maskBit => qcmMobileSyncUnmap addr maskBit
  | .attachEdgeData link => onEdgeDataAttached { addr with inlinks := qdrAddInLinkRef addr.inlinks link } link
  | .detachEdgeData link => some ([], { addr with inlinks := addr.inlinks.eraseP (·.link == link) })

/-! ### What an edge should hold -/

/-- The interior can deliver what the edge on `edge` sends to the address: a
remote router has it, or a local receiver on another connection. -/
def HasDestinationBeyond (addr : Tracking) (edge : Nat) : Prop :=
  addr.rnodes.Nonempty ∨ ∃ link ∈ addr.rlinks, link.conn ≠ edge

instance (addr : Tracking) (edge : Nat) : Decidable (HasDestinationBeyond addr edge) :=
  inferInstanceAs (Decidable (_ ∨ _))

/-- The edges' views after a call: a data link that attaches starts its
edge's view afresh, and each message sets the view of its connection. -/
def edgeView (view : Nat → Bool) (call : TrackingCall) (messages : List (Nat × Bool)) : Nat → Bool :=
  match call with
  | .attachEdgeData link => writeAll (Function.update view link.conn false) messages
  | _ => writeAll view messages

/-- The module and the edges' views, a call at a time. -/
def observedStep (system : Tracking × (Nat → Bool)) (call : TrackingCall) :
    Option (List (Nat × Bool) × (Tracking × (Nat → Bool))) :=
  (trackingStep system.1 call).map fun stepped => (stepped.1, stepped.2, edgeView system.2 call stepped.1)

/-- An edge on connection `7` attaches a data link to a mobile address with no
destination and is told nothing. Two receivers then attach on the same
connection. The first raises `QDRC_EVENT_ADDR_BECAME_LOCAL_DEST`, which tells
no one, as the receiver is back through the edge. The second raises
`QDRC_EVENT_ADDR_TWO_DEST`, which tells the edge on the first receiver's
connection that the interior can deliver, though every destination is back
through it. -/
theorem edge_told_of_own_receivers :
    (Mealy.runPartial observedStep (⟨true, 0, [], ∅, [], [7]⟩, fun _ => false)
      [.attachEdgeData ⟨1, 7⟩, .bindReceiver ⟨2, 7⟩, .bindReceiver ⟨3, 7⟩]).map
        (fun ran => (ran.1, ran.2.2 7, decide (HasDestinationBeyond ran.2.1 7))) =
      some ([[], [], [(7, true)]], true, false) := by
  decide +kernel


/-! ### Lemmas of the model -/

section Model

variable {addr before after : Tracking} {edge : Nat}

@[simp]
theorem edgeContextConns_rlinks (addr : Tracking) (rlinks : List Link) :
    edgeContextConns { addr with rlinks } = edgeContextConns addr := rfl

@[simp]
theorem edgeContextConns_rnodes (addr : Tracking) (rnodes : Finset Nat) :
    edgeContextConns { addr with rnodes } = edgeContextConns addr := rfl

theorem mem_edgeContextConns :
    edge ∈ edgeContextConns addr ↔ ∃ entry ∈ addr.inlinks, entry.edgeContext = true ∧ entry.link.conn = edge := by
  simp [edgeContextConns, and_assoc]

theorem mem_tellEdges {pred : Nat → Bool} {insertAddr : Bool} {message : Nat × Bool} :
    message ∈ tellEdges addr pred insertAddr ↔
      message.1 ∈ edgeContextConns addr ∧ pred message.1 = true ∧ message.2 = insertAddr := by
  obtain ⟨conn, flag⟩ := message
  simp only [tellEdges, List.mem_map, List.mem_filter, Prod.mk.injEq]
  constructor
  · rintro ⟨_, ⟨mem, passes⟩, rfl, rfl⟩
    exact ⟨mem, passes, rfl⟩
  · rintro ⟨mem, passes, rfl⟩
    exact ⟨conn, ⟨mem, passes⟩, rfl, rfl⟩

/-- The loop that stops at the first receiver's connection sends one message,
if an edge context is on it. -/
theorem tellReceiverEdge_eq (addr : Tracking) (head : Link) (insertAddr : Bool) :
    tellReceiverEdge addr head insertAddr =
      if head.conn ∈ edgeContextConns addr then [(head.conn, insertAddr)] else [] := by
  unfold tellReceiverEdge
  split_ifs with mem
  · have found : (edgeContextConns addr).find? (· == head.conn) = some head.conn := by
      obtain ⟨conn, isFound⟩ : ∃ conn, (edgeContextConns addr).find? (· == head.conn) = some conn :=
        Option.isSome_iff_exists.mp (List.find?_isSome.mpr ⟨head.conn, mem, beq_self_eq_true _⟩)
      have same : conn = head.conn := by simpa using List.find?_some isFound
      rw [isFound, same]
    rw [found]
    rfl
  · rw [List.find?_eq_none.mpr fun conn conned => by simpa using ne_of_mem_of_not_mem conned mem]
    rfl

theorem qdrcEventAddrRaise_of_not_mobile (notMobile : addr.mobile = false) (event : AddrEvent) :
    qdrcEventAddrRaise addr event = some ([], addr) := by
  simp [qdrcEventAddrRaise, onAddrEvent, notMobile]

theorem qdrcEventAddrRaise_becameLocalDest (mobile : addr.mobile = true) :
    qdrcEventAddrRaise addr .becameLocalDest =
      some (if addr.rnodes.card = 0 then tellEdges addr (qdrcCanSendAddress addr) true else [], addr) := by
  simp [qdrcEventAddrRaise, onAddrEvent, mobile]

theorem qdrcEventAddrRaise_becameDest (mobile : addr.mobile = true) :
    qdrcEventAddrRaise addr .becameDest = some (tellEdges addr (qdrcCanSendAddress addr) true, addr) := by
  simp [qdrcEventAddrRaise, onAddrEvent, mobile]

theorem qdrcEventAddrRaise_noLongerDest (mobile : addr.mobile = true) :
    qdrcEventAddrRaise addr .noLongerDest =
      some (if addr.rnodes.card = 0 then tellEdges addr (fun _ => true) false else [], addr) := by
  simp [qdrcEventAddrRaise, onAddrEvent, mobile]

theorem qdrcEventAddrRaise_noLongerLocalDest (mobile : addr.mobile = true) :
    qdrcEventAddrRaise addr .noLongerLocalDest =
      some (if addr.rnodes.card = 0 then tellEdges addr (fun _ => true) false else [], addr) := by
  simp [qdrcEventAddrRaise, onAddrEvent, mobile]

theorem qdrcEventAddrRaise_oneLocalDest (mobile : addr.mobile = true) {head : Link} (single : addr.rlinks = [head]) :
    qdrcEventAddrRaise addr .oneLocalDest = some (tellReceiverEdge addr head false, addr) := by
  simp [qdrcEventAddrRaise, onAddrEvent, mobile, single]

theorem qdrcEventAddrRaise_twoDest (mobile : addr.mobile = true) {head : Link} (headIs : addr.rlinks.head? = some head) :
    qdrcEventAddrRaise addr .twoDest = some (tellReceiverEdge addr head true, addr) := by
  simp [qdrcEventAddrRaise, onAddrEvent, mobile, headIs]

theorem mem_qdrAddLinkRef {refs : List Link} {link other : Link} :
    other ∈ qdrAddLinkRef refs link ↔ other ∈ refs ∨ other = link := by
  unfold qdrAddLinkRef
  split_ifs with already
  · exact ⟨Or.inl, fun added => added.elim id fun same => same ▸ already⟩
  · simp

theorem qdrAddLinkRef_nodup {refs : List Link} (nodup : refs.Nodup) (link : Link) :
    (qdrAddLinkRef refs link).Nodup := by
  unfold qdrAddLinkRef
  split_ifs with already
  · exact nodup
  · exact nodup.append (List.nodup_singleton link) (by simpa using already)

theorem length_qdrAddLinkRef_le (refs : List Link) (link : Link) :
    (qdrAddLinkRef refs link).length ≤ refs.length + 1 := by
  unfold qdrAddLinkRef
  split_ifs <;> simp

/-- A link added to a list that has one keeps its head. -/
theorem head?_qdrAddLinkRef {refs : List Link} (nonempty : refs ≠ []) (link : Link) :
    (qdrAddLinkRef refs link).head? = refs.head? := by
  unfold qdrAddLinkRef
  split_ifs
  · rfl
  · obtain ⟨first, rest, rfl⟩ := List.exists_cons_of_ne_nil nonempty
    rfl

theorem mem_qdrAddInLinkRef {inlinks : List InLink} {link : Link} {entry : InLink}
    (mem : entry ∈ qdrAddInLinkRef inlinks link) : entry ∈ inlinks ∨ entry = ⟨link, false⟩ := by
  unfold qdrAddInLinkRef at mem
  split_ifs at mem
  · exact Or.inl mem
  · simpa using mem

/-- What an edge should hold only grows with the receivers and the remote
routers. -/
theorem HasDestinationBeyond.mono (holds : HasDestinationBeyond before edge)
    (links : ∀ link ∈ before.rlinks, link ∈ after.rlinks) (nodes : before.rnodes ⊆ after.rnodes) :
    HasDestinationBeyond after edge := by
  rcases holds with ⟨node, mem⟩ | ⟨link, mem, away⟩
  · exact Or.inl ⟨node, nodes mem⟩
  · exact Or.inr ⟨link, links link mem, away⟩

theorem not_hasDestinationBeyond_of_empty (addr : Tracking) (noNodes : addr.rnodes.card = 0)
    (noLinks : addr.rlinks.length = 0) :
    ¬HasDestinationBeyond addr edge := by
  rw [Finset.card_eq_zero] at noNodes
  rw [List.length_eq_zero_iff] at noLinks
  simp [HasDestinationBeyond, noNodes, noLinks]

/-- With no remote router and one receiver, an edge should hold that the
interior can deliver exactly when the receiver is on another connection. -/
theorem hasDestinationBeyond_single (addr : Tracking) {head : Link} (noNodes : addr.rnodes.card = 0)
    (single : addr.rlinks = [head]) :
    HasDestinationBeyond addr edge ↔ head.conn ≠ edge := by
  rw [Finset.card_eq_zero] at noNodes
  simp [HasDestinationBeyond, noNodes, single]

end Model

/-! ### One receiver per edge connection -/

/-- At most one receiver of the address on a connection with an endpoint
state. -/
def OneReceiverPerEdge (addr : Tracking) : Prop :=
  ∀ link ∈ addr.rlinks, ∀ other ∈ addr.rlinks, link.conn = other.conn → link.conn ∈ addr.endpoints → link = other

section OneReceiver

variable {addr : Tracking} {edge : Nat}

/-- Two receivers, at most one of them on an edge connection: the other is
beyond it. -/
theorem exists_conn_ne_of_two (nodup : addr.rlinks.Nodup) (one : OneReceiverPerEdge addr)
    (endpoint : edge ∈ addr.endpoints) (two : 2 ≤ addr.rlinks.length) : ∃ link ∈ addr.rlinks, link.conn ≠ edge := by
  match split : addr.rlinks, nodup, two with
  | first :: second :: rest, nodup, _ =>
      have distinct : first ≠ second := by
        intro same
        subst same
        simp at nodup
      by_cases onEdge : first.conn = edge
      · refine ⟨second, by simp, fun secondOn => distinct ?_⟩
        exact one first (by simp [split]) second (by simp [split]) (onEdge.trans secondOn.symm) (onEdge ▸ endpoint)
      · exact ⟨first, by simp, onEdge⟩

theorem hasDestinationBeyond_of_two (nodup : addr.rlinks.Nodup) (one : OneReceiverPerEdge addr)
    (endpoint : edge ∈ addr.endpoints) (two : 2 ≤ addr.rlinks.length) : HasDestinationBeyond addr edge :=
  Or.inr (exists_conn_ne_of_two nodup one endpoint two)

/-- With one receiver per edge connection, `qdrc_can_send_address` lets an edge
through exactly when it should hold that the interior can deliver. -/
theorem qdrcCanSendAddress_iff (nodup : addr.rlinks.Nodup) (one : OneReceiverPerEdge addr)
    (endpoint : edge ∈ addr.endpoints) :
    qdrcCanSendAddress addr edge = true ↔ HasDestinationBeyond addr edge := by
  unfold qdrcCanSendAddress
  split_ifs with many
  · simp only [true_iff]
    rcases many with two | nodes
    · exact hasDestinationBeyond_of_two nodup one endpoint two
    · exact Or.inl (Finset.card_pos.mp nodes)
  · simp only [not_or, Nat.not_lt, Nat.le_zero] at many
    obtain ⟨atMostOne, noNodes⟩ := many
    split
    · next head single => simpa [bne_iff_ne] using (hasDestinationBeyond_single addr noNodes single).symm
    · next notSingle =>
        have noLinks : addr.rlinks.length = 0 := by
          match split : addr.rlinks, atMostOne with
          | [], _ => rfl
          | [head], _ => exact absurd split (notSingle head)
        simpa using not_hasDestinationBeyond_of_empty addr noNodes noLinks

end OneReceiver

/-! ### The edges' views over a run -/

/-- The messages of a call tell each connection they reach what its edge
should hold after the call; an edge they miss should hold what it did before. -/
structure Reports (before after : Tracking) (messages : List (Nat × Bool)) : Prop where
  sound : ∀ message ∈ messages, message.2 = decide (HasDestinationBeyond after message.1)
  missed : ∀ edge ∈ edgeContextConns after, (∀ message ∈ messages, message.1 ≠ edge) →
    (HasDestinationBeyond after edge ↔ HasDestinationBeyond before edge)

section Reports

variable {before after : Tracking}

theorem reports_nil
    (same : ∀ edge ∈ edgeContextConns after, (HasDestinationBeyond after edge ↔ HasDestinationBeyond before edge)) :
    Reports before after [] :=
  ⟨fun _ mem => absurd mem List.not_mem_nil, fun edge mem _ => same edge mem⟩

theorem reports_tellEdges {pred : Nat → Bool} {insertAddr : Bool}
    (told : ∀ edge ∈ edgeContextConns after, pred edge = true →
      insertAddr = decide (HasDestinationBeyond after edge))
    (untold : ∀ edge ∈ edgeContextConns after, pred edge = false →
      (HasDestinationBeyond after edge ↔ HasDestinationBeyond before edge)) :
    Reports before after (tellEdges after pred insertAddr) where
  sound message mem := by
    obtain ⟨tracked, passes, flag⟩ := mem_tellEdges.mp mem
    rw [flag]
    exact told _ tracked passes
  missed edge tracked unwritten := by
    cases passes : pred edge with
    | false => exact untold edge tracked passes
    | true => exact absurd rfl (unwritten (edge, insertAddr) (mem_tellEdges.mpr ⟨tracked, passes, rfl⟩))

theorem reports_tellReceiverEdge {head : Link} {insertAddr : Bool}
    (told : head.conn ∈ edgeContextConns after → insertAddr = decide (HasDestinationBeyond after head.conn))
    (untold : ∀ edge ∈ edgeContextConns after, edge ≠ head.conn →
      (HasDestinationBeyond after edge ↔ HasDestinationBeyond before edge)) :
    Reports before after (tellReceiverEdge after head insertAddr) := by
  rw [tellReceiverEdge_eq]
  split_ifs with tracked
  · refine ⟨fun message mem => ?_, fun edge mem unwritten => untold edge mem fun same => ?_⟩
    · rw [List.mem_singleton] at mem
      subst mem
      exact told tracked
    · exact unwritten _ List.mem_cons_self same.symm
  · exact reports_nil fun edge mem => untold edge mem fun same => tracked (same ▸ mem)

/-- Messages that report a call leave each edge tracked after it with the
view it should hold, where the views agreed before: the last message to it
was right, and an edge no message reaches should hold what it did. -/
theorem Reports.views {messages : List (Nat × Bool)} (reports : Reports before after messages) {view : Nat → Bool}
    (agreed : ∀ edge ∈ edgeContextConns before, (view edge = true ↔ HasDestinationBeyond before edge))
    (tracked : ∀ edge ∈ edgeContextConns after, edge ∈ edgeContextConns before) :
    ∀ edge ∈ edgeContextConns after, (writeAll view messages edge = true ↔ HasDestinationBeyond after edge) := by
  intro edge mem
  by_cases written : ∃ message ∈ messages, message.1 = edge
  · rw [@writeAll_of_written Nat Bool _ view messages (fun edge => decide (HasDestinationBeyond after edge))
      reports.sound edge written, decide_eq_true_iff]
  · push Not at written
    rw [writeAll_of_not_written view messages written, agreed edge (tracked edge mem), reports.missed edge mem written]

end Reports

/-- What every allowed call keeps: the receivers are distinct and at most one
is on an edge connection; an edge context is set only on a mobile address with
no subscriptions and on a connection with an endpoint state; and each edge
with an edge context has the view it should hold. -/
structure Agrees (system : Tracking × (Nat → Bool)) : Prop where
  nodup : system.1.rlinks.Nodup
  oneReceiver : OneReceiverPerEdge system.1
  contexts : ∀ entry ∈ system.1.inlinks, entry.edgeContext = true →
    system.1.mobile = true ∧ system.1.subscriptions = 0 ∧ entry.link.conn ∈ system.1.endpoints
  views : ∀ edge ∈ edgeContextConns system.1, (system.2 edge = true ↔ HasDestinationBeyond system.1 edge)

/-- A receiver binds where no other receiver is on its connection, if that is
an edge's; a data link attaches with no edge context set. -/
def TrackingCall.Allowed (addr : Tracking) : TrackingCall → Prop
  | .bindReceiver link => link.conn ∈ addr.endpoints → ∀ other ∈ addr.rlinks, other.conn = link.conn → other = link
  | .attachEdgeData link => ∀ entry ∈ addr.inlinks, entry.link = link → entry.edgeContext = false
  | _ => True

instance (addr : Tracking) (call : TrackingCall) : Decidable (call.Allowed addr) :=
  match call with
  | .bindReceiver link => inferInstanceAs
      (Decidable (link.conn ∈ addr.endpoints → ∀ other ∈ addr.rlinks, other.conn = link.conn → other = link))
  | .unbindReceiver _ => instDecidableTrue
  | .mapRouter _ => instDecidableTrue
  | .unmapRouter _ => instDecidableTrue
  | .attachEdgeData link => inferInstanceAs
      (Decidable (∀ entry ∈ addr.inlinks, entry.link = link → entry.edgeContext = false))
  | .detachEdgeData _ => instDecidableTrue

/-- A fresh address has no edge to tell. -/
theorem agrees_start (mobile : Bool) (subscriptions : Nat) (endpoints : List Nat) (view : Nat → Bool) :
    Agrees (⟨mobile, subscriptions, [], ∅, [], endpoints⟩, view) where
  nodup := List.nodup_nil
  oneReceiver _ mem := absurd mem List.not_mem_nil
  contexts _ mem := absurd mem List.not_mem_nil
  views _ mem := absurd mem (by simp [edgeContextConns])

section Agrees

variable {addr : Tracking} {view : Nat → Bool} {link : Link} {edge : Nat}

theorem Agrees.tracked (agrees : Agrees (addr, view)) (tracked : edge ∈ edgeContextConns addr) :
    addr.mobile = true ∧ addr.subscriptions = 0 ∧ edge ∈ addr.endpoints := by
  obtain ⟨entry, mem, context, rfl⟩ := mem_edgeContextConns.mp tracked
  exact agrees.contexts entry mem context

theorem Agrees.untracked_of_not_mobile (agrees : Agrees (addr, view)) (notMobile : addr.mobile = false) :
    edge ∉ edgeContextConns addr := fun tracked => by
  simp [(agrees.tracked tracked).1] at notMobile

/-- A call that leaves the edge contexts as they are, reported by its
messages, keeps the views agreeing. -/
theorem Agrees.of_reports (agrees : Agrees (addr, view)) {next : Tracking} {messages : List (Nat × Bool)}
    (reports : Reports addr next messages) (nodup : next.rlinks.Nodup) (one : OneReceiverPerEdge next)
    (inlinks : next.inlinks = addr.inlinks) (mobile : next.mobile = addr.mobile)
    (subscriptions : next.subscriptions = addr.subscriptions) (endpoints : next.endpoints = addr.endpoints) :
    Agrees (next, writeAll view messages) := by
  have sameContexts : edgeContextConns next = edgeContextConns addr := by
    rw [edgeContextConns, edgeContextConns, inlinks]
  refine ⟨nodup, one, fun entry mem context => ?_, reports.views agrees.views fun edge tracked => sameContexts ▸ tracked⟩
  rw [mobile, subscriptions, endpoints]
  exact agrees.contexts entry (inlinks ▸ mem) context

theorem Agrees.bind_oneReceiver (agrees : Agrees (addr, view)) (allowed : (TrackingCall.bindReceiver link).Allowed addr) :
    OneReceiverPerEdge { addr with rlinks := qdrAddLinkRef addr.rlinks link } := by
  intro first firstMem second secondMem sameConn endpoint
  rcases mem_qdrAddLinkRef.mp firstMem with firstOld | rfl <;>
    rcases mem_qdrAddLinkRef.mp secondMem with secondOld | rfl
  · exact agrees.oneReceiver first firstOld second secondOld sameConn endpoint
  · exact allowed (sameConn ▸ endpoint) first firstOld sameConn
  · exact (allowed endpoint second secondOld sameConn.symm).symm
  · rfl

/-- A receiver that binds: its events tell each edge what changed for it. -/
theorem Agrees.bind_reports (agrees : Agrees (addr, view)) (allowed : (TrackingCall.bindReceiver link).Allowed addr) :
    ∃ messages, qdrCoreBindAddressLinkCT addr link =
        some (messages, { addr with rlinks := qdrAddLinkRef addr.rlinks link }) ∧
      Reports addr { addr with rlinks := qdrAddLinkRef addr.rlinks link } messages := by
  have nodup := qdrAddLinkRef_nodup agrees.nodup link
  have one := agrees.bind_oneReceiver allowed
  have grown : ∀ edge, HasDestinationBeyond addr edge →
      HasDestinationBeyond { addr with rlinks := qdrAddLinkRef addr.rlinks link } edge :=
    fun _ holds => holds.mono (fun _ mem => mem_qdrAddLinkRef.mpr (Or.inl mem)) subset_rfl
  have bound : 0 < (qdrAddLinkRef addr.rlinks link).length :=
    List.length_pos_of_mem (mem_qdrAddLinkRef.mpr (Or.inr rfl))
  have atMost := length_qdrAddLinkRef_le addr.rlinks link
  rcases (Bool.eq_false_or_eq_true addr.mobile).symm with mobile | mobile
  · have notMobile : ({ addr with rlinks := qdrAddLinkRef addr.rlinks link } : Tracking).mobile = false := mobile
    refine ⟨[], ?_, reports_nil fun edge tracked => absurd tracked (agrees.untracked_of_not_mobile mobile)⟩
    unfold qdrCoreBindAddressLinkCT
    dsimp only
    split_ifs
    · exact qdrcEventAddrRaise_of_not_mobile notMobile _
    · exact qdrcEventAddrRaise_of_not_mobile notMobile _
    · rfl
  have addedMobile : ({ addr with rlinks := qdrAddLinkRef addr.rlinks link } : Tracking).mobile = true := mobile
  unfold qdrCoreBindAddressLinkCT
  dsimp only
  split_ifs with first second
  · -- the first receiver: edges are told only if no remote router is there
    by_cases noNodes : addr.rnodes.card = 0
    · refine ⟨_, by rw [qdrcEventAddrRaise_becameLocalDest addedMobile, if_pos noNodes], reports_tellEdges ?_ ?_⟩
      · intro edge tracked passes
        rw [eq_comm, decide_eq_true_iff, ← qdrcCanSendAddress_iff nodup one (agrees.tracked tracked).2.2]
        exact passes
      · intro edge tracked passes
        have notAfter : ¬HasDestinationBeyond { addr with rlinks := qdrAddLinkRef addr.rlinks link } edge := by
          rw [← qdrcCanSendAddress_iff nodup one (agrees.tracked tracked).2.2, passes]
          simp
        exact iff_of_false notAfter fun before => notAfter (grown edge before)
    · have nodes := Finset.card_pos.mp (Nat.pos_of_ne_zero noNodes)
      exact ⟨[], by rw [qdrcEventAddrRaise_becameLocalDest addedMobile, if_neg noNodes],
        reports_nil fun _ _ => iff_of_true (Or.inl nodes) (Or.inl nodes)⟩
  · -- a second receiver and no remote router: the first receiver's edge is told
    obtain ⟨twoLinks, noNodes⟩ := second
    obtain ⟨head, headIs⟩ : ∃ head, (qdrAddLinkRef addr.rlinks link).head? = some head :=
      Option.isSome_iff_exists.mp (List.isSome_head?.mpr (List.ne_nil_of_length_pos bound))
    have nonempty : addr.rlinks ≠ [] := fun empty => by
      simp [qdrAddLinkRef, empty] at twoLinks
    have headMem : head ∈ addr.rlinks :=
      List.mem_of_mem_head? (show head ∈ addr.rlinks.head? by
        rw [← head?_qdrAddLinkRef nonempty link, headIs]
        exact rfl)
    refine ⟨_, by rw [qdrcEventAddrRaise_twoDest addedMobile headIs], reports_tellReceiverEdge ?_ ?_⟩
    · intro tracked
      rw [eq_comm, decide_eq_true_iff]
      exact hasDestinationBeyond_of_two nodup one (agrees.tracked tracked).2.2 twoLinks.ge
    · intro edge _ away
      exact iff_of_true (Or.inr ⟨head, mem_qdrAddLinkRef.mpr (Or.inl headMem), Ne.symm away⟩)
        (Or.inr ⟨head, headMem, Ne.symm away⟩)
  · -- no event: three receivers or more, or a remote router, before and after
    refine ⟨[], rfl, reports_nil fun edge tracked => ⟨fun _ => ?_, grown edge⟩⟩
    by_cases noNodes : addr.rnodes.card = 0
    · exact hasDestinationBeyond_of_two agrees.nodup agrees.oneReceiver (agrees.tracked tracked).2.2 (by omega)
    · exact Or.inl (Finset.card_pos.mp (Nat.pos_of_ne_zero noNodes))

/-- A receiver that unbinds: its events tell each edge what changed for it. -/
theorem Agrees.unbind_reports (agrees : Agrees (addr, view)) (link : Link) :
    ∃ messages, qdrCoreUnbindAddressLinkCT addr link =
        some (messages, { addr with rlinks := addr.rlinks.erase link }) ∧
      Reports addr { addr with rlinks := addr.rlinks.erase link } messages := by
  have nodup := agrees.nodup.erase link
  have one : OneReceiverPerEdge { addr with rlinks := addr.rlinks.erase link } :=
    fun first firstMem second secondMem =>
      agrees.oneReceiver first (List.mem_of_mem_erase firstMem) second (List.mem_of_mem_erase secondMem)
  have shrunk : ∀ edge, HasDestinationBeyond { addr with rlinks := addr.rlinks.erase link } edge →
      HasDestinationBeyond addr edge :=
    fun _ holds => holds.mono (fun _ => List.mem_of_mem_erase) subset_rfl
  rcases (Bool.eq_false_or_eq_true addr.mobile).symm with mobile | mobile
  · have notMobile : ({ addr with rlinks := addr.rlinks.erase link } : Tracking).mobile = false := mobile
    refine ⟨[], ?_, reports_nil fun edge tracked => absurd tracked (agrees.untracked_of_not_mobile mobile)⟩
    unfold qdrCoreUnbindAddressLinkCT
    dsimp only
    split_ifs
    · exact qdrcEventAddrRaise_of_not_mobile notMobile _
    · exact qdrcEventAddrRaise_of_not_mobile notMobile _
    · rfl
  have removedMobile : ({ addr with rlinks := addr.rlinks.erase link } : Tracking).mobile = true := mobile
  unfold qdrCoreUnbindAddressLinkCT
  dsimp only
  split_ifs with noLinks single
  · -- the last receiver gone: every edge is told, if no remote router is there
    by_cases noNodes : addr.rnodes.card = 0
    · refine ⟨_, by rw [qdrcEventAddrRaise_noLongerLocalDest removedMobile, if_pos noNodes],
        reports_tellEdges ?_ ?_⟩
      · intro edge _ _
        rw [eq_comm, decide_eq_false_iff_not]
        exact not_hasDestinationBeyond_of_empty _ noNodes noLinks
      · intro edge _ passes
        cases passes
    · have nodes := Finset.card_pos.mp (Nat.pos_of_ne_zero noNodes)
      exact ⟨[], by rw [qdrcEventAddrRaise_noLongerLocalDest removedMobile, if_neg noNodes],
        reports_nil fun _ _ => iff_of_true (Or.inl nodes) (Or.inl nodes)⟩
  · -- one receiver left and no remote router: the edge it is on is told
    obtain ⟨oneLink, noNodes⟩ := single
    obtain ⟨head, single⟩ := List.length_eq_one_iff.mp oneLink
    have headMem : head ∈ addr.rlinks := List.mem_of_mem_erase (single ▸ List.mem_singleton_self head)
    refine ⟨_, by rw [qdrcEventAddrRaise_oneLocalDest removedMobile single], reports_tellReceiverEdge ?_ ?_⟩
    · intro _
      rw [eq_comm, decide_eq_false_iff_not,
        hasDestinationBeyond_single { addr with rlinks := addr.rlinks.erase link } noNodes single]
      exact fun away => away rfl
    · intro edge _ away
      exact iff_of_true
        ((hasDestinationBeyond_single { addr with rlinks := addr.rlinks.erase link } noNodes single).mpr
          (Ne.symm away))
        (Or.inr ⟨head, headMem, Ne.symm away⟩)
  · -- no event: two receivers or more, or a remote router, before and after
    refine ⟨[], rfl, reports_nil fun edge tracked => ⟨shrunk edge, fun _ => ?_⟩⟩
    by_cases noNodes : addr.rnodes.card = 0
    · exact hasDestinationBeyond_of_two nodup one (agrees.tracked tracked).2.2 (by dsimp only; omega)
    · exact Or.inl (Finset.card_pos.mp (Nat.pos_of_ne_zero noNodes))

/-- A router the address is mapped to: its events tell each edge what changed
for it. -/
theorem Agrees.map_reports (agrees : Agrees (addr, view)) (maskBit : Nat) :
    ∃ messages, qcmMobileSyncOnMauAdd addr maskBit =
        some (messages, { addr with rnodes := insert maskBit addr.rnodes }) ∧
      Reports addr { addr with rnodes := insert maskBit addr.rnodes } messages := by
  have mapped : ∀ edge, HasDestinationBeyond { addr with rnodes := insert maskBit addr.rnodes } edge :=
    fun _ => Or.inl (Finset.insert_nonempty maskBit addr.rnodes)
  unfold qcmMobileSyncOnMauAdd
  by_cases present : maskBit ∈ addr.rnodes
  · have same : insert maskBit addr.rnodes = addr.rnodes := Finset.insert_eq_of_mem present
    rw [if_neg (not_not.mpr present)]
    exact ⟨[], by rw [same], reports_nil fun _ _ => by rw [same]⟩
  rw [if_pos present]
  rcases (Bool.eq_false_or_eq_true addr.mobile).symm with mobile | mobile
  · have notMobile : ({ addr with rnodes := insert maskBit addr.rnodes } : Tracking).mobile = false := mobile
    refine ⟨[], ?_, reports_nil fun edge tracked => absurd tracked (agrees.untracked_of_not_mobile mobile)⟩
    dsimp only
    split_ifs
    · exact qdrcEventAddrRaise_of_not_mobile notMobile _
    · exact qdrcEventAddrRaise_of_not_mobile notMobile _
    · rfl
  have mappedMobile : ({ addr with rnodes := insert maskBit addr.rnodes } : Tracking).mobile = true := mobile
  have card : (insert maskBit addr.rnodes).card = addr.rnodes.card + 1 := Finset.card_insert_of_notMem present
  dsimp only
  split_ifs with first second
  · -- the first destination: every edge is told
    refine ⟨_, by rw [qdrcEventAddrRaise_becameDest mappedMobile], reports_tellEdges ?_ ?_⟩
    · intro edge _ _
      rw [eq_comm, decide_eq_true_iff]
      exact mapped edge
    · intro edge _ passes
      have sends : qdrcCanSendAddress { addr with rnodes := insert maskBit addr.rnodes } edge = true := by
        simp [qdrcCanSendAddress, card]
      rw [sends] at passes
      cases passes
  · -- a second destination beside one local receiver: the receiver's edge is told
    obtain ⟨_, oneLink⟩ := second
    obtain ⟨head, single⟩ := List.length_eq_one_iff.mp oneLink
    refine ⟨_, by rw [qdrcEventAddrRaise_twoDest mappedMobile (show addr.rlinks.head? = some head by simp [single])],
      reports_tellReceiverEdge ?_ ?_⟩
    · intro _
      rw [eq_comm, decide_eq_true_iff]
      exact mapped _
    · intro edge _ away
      exact iff_of_true (mapped edge) (Or.inr ⟨head, by simp [single], Ne.symm away⟩)
  · -- no event: a remote router or two receivers were there before
    refine ⟨[], rfl, reports_nil fun edge tracked => iff_of_true (mapped edge) ?_⟩
    by_cases noNodes : addr.rnodes.card = 0
    · exact hasDestinationBeyond_of_two agrees.nodup agrees.oneReceiver (agrees.tracked tracked).2.2 (by omega)
    · exact Or.inl (Finset.card_pos.mp (Nat.pos_of_ne_zero noNodes))

/-- A router the address is unmapped from: its events tell each edge what
changed for it. -/
theorem Agrees.unmap_reports (agrees : Agrees (addr, view)) (maskBit : Nat) :
    ∃ messages, qcmMobileSyncUnmap addr maskBit =
        some (messages, { addr with rnodes := addr.rnodes.erase maskBit }) ∧
      Reports addr { addr with rnodes := addr.rnodes.erase maskBit } messages := by
  unfold qcmMobileSyncUnmap
  by_cases present : maskBit ∈ addr.rnodes
  · rw [if_pos present]
    have before : ∀ edge, HasDestinationBeyond addr edge := fun _ => Or.inl ⟨maskBit, present⟩
    rcases (Bool.eq_false_or_eq_true addr.mobile).symm with mobile | mobile
    · have notMobile : ({ addr with rnodes := addr.rnodes.erase maskBit } : Tracking).mobile = false := mobile
      refine ⟨[], ?_, reports_nil fun edge tracked => absurd tracked (agrees.untracked_of_not_mobile mobile)⟩
      dsimp only
      split_ifs
      · exact qdrcEventAddrRaise_of_not_mobile notMobile _
      · exact qdrcEventAddrRaise_of_not_mobile notMobile _
      · rfl
    have unmappedMobile : ({ addr with rnodes := addr.rnodes.erase maskBit } : Tracking).mobile = true := mobile
    dsimp only
    split_ifs with last single
    · -- the last destination gone: every edge is told
      have noNodes : (addr.rnodes.erase maskBit).card = 0 := by omega
      refine ⟨_, by rw [qdrcEventAddrRaise_noLongerDest unmappedMobile, if_pos noNodes], reports_tellEdges ?_ ?_⟩
      · intro edge _ _
        rw [eq_comm, decide_eq_false_iff_not]
        exact not_hasDestinationBeyond_of_empty _ noNodes (by dsimp only; omega)
      · intro edge _ passes
        cases passes
    · -- one local receiver left: its edge is told
      obtain ⟨noNodes, oneLink⟩ := single
      obtain ⟨head, single⟩ := List.length_eq_one_iff.mp oneLink
      refine ⟨_, by rw [qdrcEventAddrRaise_oneLocalDest unmappedMobile single], reports_tellReceiverEdge ?_ ?_⟩
      · intro _
        rw [eq_comm, decide_eq_false_iff_not,
          hasDestinationBeyond_single { addr with rnodes := addr.rnodes.erase maskBit } noNodes single]
        exact fun away => away rfl
      · intro edge _ away
        exact iff_of_true
          ((hasDestinationBeyond_single { addr with rnodes := addr.rnodes.erase maskBit } noNodes single).mpr
            (Ne.symm away))
          (before edge)
    · -- no event: a remote router or two receivers are left
      refine ⟨[], rfl, reports_nil fun edge tracked => iff_of_true ?_ (before edge)⟩
      by_cases noNodes : (addr.rnodes.erase maskBit).card = 0
      · exact hasDestinationBeyond_of_two agrees.nodup agrees.oneReceiver (agrees.tracked tracked).2.2
          (by dsimp only; omega)
      · exact Or.inl (Finset.card_pos.mp (Nat.pos_of_ne_zero noNodes))
  · have absent : addr.rnodes.erase maskBit = addr.rnodes := Finset.erase_eq_of_notMem present
    rw [if_neg present]
    exact ⟨[], by rw [absent], reports_nil fun _ _ => by rw [absent]⟩

/-- The edge of a data link just heralded is told exactly what it should
hold; the other edges keep their views. -/
theorem Agrees.herald (agrees : Agrees (addr, view)) {next : Tracking} (links : next.rlinks = addr.rlinks)
    (nodes : next.rnodes = addr.rnodes) (endpoint : link.conn ∈ addr.endpoints)
    (tracked : ∀ edge ∈ edgeContextConns next, edge ∈ edgeContextConns addr ∨ edge = link.conn) :
    ∀ edge ∈ edgeContextConns next,
      (writeAll (Function.update view link.conn false)
          (if qdrcCanSendAddress next link.conn then [(link.conn, true)] else []) edge = true ↔
        HasDestinationBeyond next edge) := by
  have same : ∀ edge, HasDestinationBeyond next edge ↔ HasDestinationBeyond addr edge := by
    intro edge
    rw [HasDestinationBeyond, HasDestinationBeyond, links, nodes]
  have sends : qdrcCanSendAddress next link.conn = qdrcCanSendAddress addr link.conn := by
    unfold qdrcCanSendAddress
    rw [links, nodes]
  intro edge mem
  by_cases isNew : edge = link.conn
  · subst isNew
    rw [same, ← qdrcCanSendAddress_iff agrees.nodup agrees.oneReceiver endpoint, ← sends]
    cases qdrcCanSendAddress next link.conn <;> simp
  · have unwritten : ∀ message ∈ (if qdrcCanSendAddress next link.conn then [(link.conn, true)] else []),
        message.1 ≠ edge := by
      split_ifs <;> simp [Ne.symm isNew]
    rw [writeAll_of_not_written _ _ unwritten, Function.update_of_ne isNew, same]
    exact agrees.views edge ((tracked edge mem).resolve_right isNew)

/-- An edge's data link that attaches: the edge's view starts afresh and is
told exactly what it should hold. -/
theorem Agrees.attach (agrees : Agrees (addr, view)) (allowed : (TrackingCall.attachEdgeData link).Allowed addr) :
    ∃ messages next, onEdgeDataAttached { addr with inlinks := qdrAddInLinkRef addr.inlinks link } link =
        some (messages, next) ∧ Agrees (next, writeAll (Function.update view link.conn false) messages) := by
  -- the entries with an edge context once the link is bound are the old ones
  have oldContexts : ∀ entry ∈ qdrAddInLinkRef addr.inlinks link, entry.edgeContext = true → entry ∈ addr.inlinks := by
    intro entry mem context
    rcases mem_qdrAddInLinkRef mem with old | rfl
    · exact old
    · cases context
  unfold onEdgeDataAttached
  dsimp only
  by_cases heralded : addr.mobile = true ∧ addr.subscriptions = 0 ∧ link.conn ∈ addr.endpoints
  · -- an edge context already set is what the call is not allowed on
    have unset : ¬(qdrAddInLinkRef addr.inlinks link).any (fun entry => entry.link == link && entry.edgeContext) = true := by
      intro asserted
      obtain ⟨entry, mem, isSet⟩ := List.any_eq_true.mp asserted
      simp only [Bool.and_eq_true, beq_iff_eq] at isSet
      have unset := allowed entry (oldContexts entry mem isSet.2) isSet.1
      simp [unset] at isSet
    rw [if_pos heralded, if_neg unset]
    obtain ⟨mobile, subscriptions, endpoint⟩ := heralded
    refine ⟨_, _, rfl, agrees.nodup, agrees.oneReceiver, ?_, ?_⟩
    · intro entry mem context
      obtain ⟨old, oldMem, rfl⟩ := List.mem_map.mp mem
      dsimp only
      split_ifs at context ⊢ with isLink
      · exact ⟨mobile, subscriptions, isLink ▸ endpoint⟩
      · exact agrees.contexts old (oldContexts old oldMem context) context
    · refine agrees.herald ?_ ?_ endpoint ?_
      · rfl
      · rfl
      intro edge tracked
      obtain ⟨entry, mem, context, rfl⟩ := mem_edgeContextConns.mp tracked
      obtain ⟨old, oldMem, rfl⟩ := List.mem_map.mp mem
      by_cases isLink : old.link = link
      · right
        simp [isLink]
      · left
        simp only [isLink, if_false] at context ⊢
        exact mem_edgeContextConns.mpr ⟨old, oldContexts old oldMem context, context, rfl⟩
  · -- not heralded: no edge context on the link's connection, none set
    rw [if_neg heralded]
    refine ⟨[], _, rfl, agrees.nodup, agrees.oneReceiver,
      fun entry mem context => agrees.contexts entry (oldContexts entry mem context) context, ?_⟩
    intro edge tracked
    obtain ⟨entry, mem, context, rfl⟩ := mem_edgeContextConns.mp tracked
    have old := oldContexts entry mem context
    have away : entry.link.conn ≠ link.conn := fun same => by
      obtain ⟨mobile, subscriptions, endpoint⟩ := agrees.contexts entry old context
      exact heralded ⟨mobile, subscriptions, same ▸ endpoint⟩
    show writeAll (Function.update view link.conn false) [] entry.link.conn = true ↔ _
    rw [writeAll_nil, Function.update_of_ne away]
    exact agrees.views _ (mem_edgeContextConns.mpr ⟨entry, old, context, rfl⟩)

/-- Every allowed call keeps the views agreeing, and none asserts. -/
theorem Agrees.step {system : Tracking × (Nat → Bool)} (agrees : Agrees system) {call : TrackingCall}
    (allowed : call.Allowed system.1) : ∃ messages next, observedStep system call = some (messages, next) ∧ Agrees next := by
  obtain ⟨addr, view⟩ := system
  cases call with
  | bindReceiver link =>
      obtain ⟨messages, stepped, reports⟩ := agrees.bind_reports allowed
      exact ⟨messages, _, by simp only [observedStep, trackingStep, stepped, Option.map_some]; rfl,
        agrees.of_reports reports (qdrAddLinkRef_nodup agrees.nodup link) (agrees.bind_oneReceiver allowed)
          rfl rfl rfl rfl⟩
  | unbindReceiver link =>
      obtain ⟨messages, stepped, reports⟩ := agrees.unbind_reports link
      exact ⟨messages, _, by simp only [observedStep, trackingStep, stepped, Option.map_some]; rfl,
        agrees.of_reports reports (agrees.nodup.erase link)
          (fun first firstMem second secondMem =>
            agrees.oneReceiver first (List.mem_of_mem_erase firstMem) second (List.mem_of_mem_erase secondMem))
          rfl rfl rfl rfl⟩
  | mapRouter maskBit =>
      obtain ⟨messages, stepped, reports⟩ := agrees.map_reports maskBit
      exact ⟨messages, _, by simp only [observedStep, trackingStep, stepped, Option.map_some]; rfl,
        agrees.of_reports reports agrees.nodup agrees.oneReceiver rfl rfl rfl rfl⟩
  | unmapRouter maskBit =>
      obtain ⟨messages, stepped, reports⟩ := agrees.unmap_reports maskBit
      exact ⟨messages, _, by simp only [observedStep, trackingStep, stepped, Option.map_some]; rfl,
        agrees.of_reports reports agrees.nodup agrees.oneReceiver rfl rfl rfl rfl⟩
  | attachEdgeData link =>
      obtain ⟨messages, next, stepped, kept⟩ := agrees.attach allowed
      exact ⟨messages, _, by simp only [observedStep, trackingStep, stepped, Option.map_some]; rfl, kept⟩
  | detachEdgeData link =>
      -- the detached link's edge context goes with its entry
      refine ⟨[], _, rfl, agrees.nodup, agrees.oneReceiver,
        fun entry mem context => agrees.contexts entry (List.mem_of_mem_eraseP mem) context, ?_⟩
      intro edge tracked
      obtain ⟨entry, mem, context, rfl⟩ := mem_edgeContextConns.mp tracked
      exact agrees.views _ (mem_edgeContextConns.mpr ⟨entry, List.mem_of_mem_eraseP mem, context, rfl⟩)

end Agrees

/-- Over every run of allowed calls from a state where the views agree, no
call asserts, and at the end every edge with a data link of the address holds
that the interior can deliver exactly when a remote router has the address or
a local receiver is on another connection than the edge's. -/
theorem Agrees.run {system : Tracking × (Nat → Bool)} (agrees : Agrees system) (calls : List TrackingCall)
    (allowed : Mealy.AllowedRun observedStep (fun system call => call.Allowed system.1) system calls) :
    ∃ answers final, Mealy.runPartial observedStep system calls = some (answers, final) ∧ Agrees final :=
  Mealy.runPartial_invariant observedStep (fun _ _ agrees allowed => agrees.step allowed) calls agrees allowed


/-- An edge on connection `7` attaches a data link to a fresh mobile address;
then a receiver binds on connection `8`, a remote router is mapped, a receiver
binds on the edge's own connection, and the first receiver and the router go. -/
theorem edge_views_agree_run :
    ∃ answers final, Mealy.runPartial observedStep (⟨true, 0, [], ∅, [], [7]⟩, fun _ => false)
        [.attachEdgeData ⟨1, 7⟩, .bindReceiver ⟨2, 8⟩, .mapRouter 3, .bindReceiver ⟨4, 7⟩,
          .unbindReceiver ⟨2, 8⟩, .unmapRouter 3] = some (answers, final) ∧ Agrees final :=
  Agrees.run (agrees_start true 0 [7] fun _ => false) _ (Mealy.allowedRun_of_allowedAlong _ (by decide +kernel))

/-- From an address with no link yet, over every run of allowed calls no call
asserts, and at its end every edge with a data link of the address holds that
the interior can deliver exactly when a remote router has the address or a
local receiver is on another connection than the edge's. -/
theorem edge_flags_exact_over_runs (mobile : Bool) (subscriptions : Nat) (endpoints : List Nat) (view : Nat → Bool)
    (calls : List TrackingCall)
    (allowed : Mealy.AllowedRun observedStep (fun system call => call.Allowed system.1)
      (⟨mobile, subscriptions, [], ∅, [], endpoints⟩, view) calls) :
    ∃ answers final, Mealy.runPartial observedStep (⟨mobile, subscriptions, [], ∅, [], endpoints⟩, view) calls =
        some (answers, final) ∧
      ∀ edge ∈ edgeContextConns final.1, (final.2 edge = true ↔ HasDestinationBeyond final.1 edge) := by
  obtain ⟨answers, final, ran, agrees⟩ := (agrees_start mobile subscriptions endpoints view).run calls allowed
  exact ⟨answers, final, ran, agrees.views⟩

/-- Two edges, on connections `7` and `9`, attach data links; a receiver binds
on `9`, a router is mapped and unmapped, and the receiver goes. -/
theorem edge_flags_exact_two_edges :
    Mealy.AllowedRun observedStep (fun system call => call.Allowed system.1) (⟨true, 0, [], ∅, [], [7, 9]⟩, fun _ => false)
        [.attachEdgeData ⟨1, 7⟩, .attachEdgeData ⟨2, 9⟩, .bindReceiver ⟨3, 9⟩, .mapRouter 4, .unmapRouter 4,
          .unbindReceiver ⟨3, 9⟩] ∧
      ∃ answers final, Mealy.runPartial observedStep (⟨true, 0, [], ∅, [], [7, 9]⟩, fun _ => false)
          [.attachEdgeData ⟨1, 7⟩, .attachEdgeData ⟨2, 9⟩, .bindReceiver ⟨3, 9⟩, .mapRouter 4, .unmapRouter 4,
            .unbindReceiver ⟨3, 9⟩] = some (answers, final) ∧
        ∀ edge ∈ edgeContextConns final.1, (final.2 edge = true ↔ HasDestinationBeyond final.1 edge) :=
  have allowed := Mealy.allowedRun_of_allowedAlong _ (by decide +kernel)
  ⟨allowed, edge_flags_exact_over_runs true 0 [7, 9] (fun _ => false) _ allowed⟩

end DispatchRouter.Router
