/-
# The engine's handlers (`engine.py`)

`RouterEngine.handleControlMessage` and `handleTimerTick` call the node
tracker inside `try`/`except Exception`: an exception is logged, and whatever
the handler changed before it raised stays changed. `Router.Node` ends a run at
the first exception. Here `link_state_received`, the one handler that changes
the tracker before it can raise, runs as Python runs it. It stores the new link
state first, then learns the peers the state names that it does not know, and
learning a peer takes a mask bit, which raises "Exceeded Maximum Router Count"
once every bit is taken. The tracker then keeps a link state whose peers are
not all known nodes, and the next recompute looks them up.

The other handlers raise only before they change anything (a node's creation
raises before it is stored) or in `tick`'s lookups; an exception there still
ends the run.
-/

import DispatchRouter.Router.Node

namespace DispatchRouter.Router

open Math

namespace NodeTracker

/-- The loop of `link_state_received` over the peers of the new link state, as
Python runs it: each peer not known is learned, and an exception ends the loop
with the peers before it learned. The flag says whether one was raised. -/
def learnPeers : List String → NodeTracker × List AdapterCall → (NodeTracker × List AdapterCall) × Bool
  | [], state => (state, false)
  | peer :: more, state =>
      if peer ∉ state.1.nodes.keys then
        match state.1.routerLearned peer none with
        | none => (state, true)
        | some (tracker, learned) => learnPeers more (tracker, state.2 ++ learned)
      else learnPeers more state

/-- `link_state_received` inside the engine's `try`: the tracker and calls when
it returns, or as they stood when it raised, and whether it raised. -/
def linkStateReceivedCaught (tracker : NodeTracker) (id : String) (version : Option Nat)
    (linkState : LinkState) (routerInstance : Option Nat) (now : Nat) :
    (NodeTracker × List AdapterCall) × Bool :=
  match tracker.ensureNode id version routerInstance with
  -- the node's creation raises before the node is stored
  | none => ((tracker, []), true)
  | some (tracker, created, node) =>
      let node := if node.version.isNone then { node with version } else node
      if node.linkState.lsSeq < linkState.lsSeq then
        let node := { node with linkState := { linkState with lastSeen := now } }
        let tracker := { tracker.putNode node with recomputeTopology := true }
        learnPeers linkState.peers.keys (tracker, created)
      else ((tracker.putNode node, created), false)

end NodeTracker

/-- One event as the engine hands it to the tracker: a link state that raised
keeps what it changed; any other handler that raises ends the run. -/
def NodeTracker.engineHandle (tracker : NodeTracker) :
    TrackerEvent → Option (NodeTracker × List AdapterCall)
  | .linkStateReceived id version linkState routerInstance now =>
      some (tracker.linkStateReceivedCaught id version linkState routerInstance now).1
  | event => tracker.handle event

/-- Events one after another, as the engine hands them to the tracker. -/
def NodeTracker.engineRun (tracker : NodeTracker) :
    List TrackerEvent → Option (NodeTracker × List AdapterCall)
  | [] => some (tracker, [])
  | event :: events =>
      (tracker.engineHandle event).bind fun (tracker, calls) =>
        (tracker.engineRun events).map fun (tracker, later) => (tracker, calls ++ later)

/-- Every peer named in the local link state or in a node's stored link state
is this router or a known node. -/
def NodeTracker.PeersKnown (tracker : NodeTracker) : Prop :=
  (∀ peer ∈ tracker.linkState.peers.keys, peer = tracker.myId ∨ peer ∈ tracker.nodes.keys) ∧
    ∀ entry ∈ tracker.nodes.entries, ∀ peer ∈ entry.2.linkState.peers.keys,
      peer = tracker.myId ∨ peer ∈ tracker.nodes.keys

instance (tracker : NodeTracker) : Decidable tracker.PeersKnown :=
  inferInstanceAs (Decidable (_ ∧ _))

/-! ### The engine agrees with `run` where nothing raises -/

namespace NodeTracker

/-- The loop over the peers, run with `foldlM`, returns exactly when Python's
loop ends without an exception, and with the same tracker and calls. -/
theorem foldlM_learn_eq_some (peers : List String) (state result : NodeTracker × List AdapterCall) :
    peers.foldlM
        (fun (state : NodeTracker × List AdapterCall) peer =>
          if peer ∉ state.1.nodes.keys then
            (state.1.routerLearned peer none).map fun (tracker, learned) => (tracker, state.2 ++ learned)
          else some state) state = some result ↔
      learnPeers peers state = (result, false) := by
  induction peers generalizing state with
  | nil => simp [learnPeers]
  | cons peer more ih =>
      rw [List.foldlM_cons, learnPeers]
      by_cases known : peer ∈ state.1.nodes.keys
      · simp only [known, not_true_eq_false, if_false]
        exact ih state
      · simp only [known, not_false_eq_true, if_true]
        cases learned : state.1.routerLearned peer none with
        | none => simp
        | some step =>
            obtain ⟨tracker, calls⟩ := step
            simp only [Option.map_some]
            exact ih _

/-- Where `link_state_received` returns, the engine's handling of it is the same. -/
theorem linkStateReceivedCaught_of_eq_some {tracker : NodeTracker} {id : String} {version : Option Nat}
    {linkState : LinkState} {routerInstance : Option Nat} {now : Nat} {result : NodeTracker × List AdapterCall}
    (returned : tracker.linkStateReceived id version linkState routerInstance now = some result) :
    tracker.linkStateReceivedCaught id version linkState routerInstance now = (result, false) := by
  unfold linkStateReceived at returned
  unfold linkStateReceivedCaught
  cases ensured : tracker.ensureNode id version routerInstance with
  | none =>
      rw [ensured] at returned
      cases returned
  | some ensuredNode =>
      obtain ⟨tracker', created, node⟩ := ensuredNode
      rw [ensured, Option.bind_some] at returned
      dsimp only at returned ⊢
      -- both fill in the version the same way; then both compare the sequence numbers
      cases filled : node.version.isNone <;>
        simp only [filled, Bool.false_eq_true, ↓reduceIte] at returned ⊢ <;>
      · split at returned
        · rename_i newer
          rw [if_pos newer]
          exact (foldlM_learn_eq_some _ _ _).mp returned
        · rename_i older
          rw [if_neg older, ← Option.some.inj returned]

/-- Each event the tracker handles without an exception is handled the same
way by the engine. -/
theorem engineHandle_of_eq_some {tracker : NodeTracker} {event : TrackerEvent}
    {result : NodeTracker × List AdapterCall} (returned : tracker.handle event = some result) :
    tracker.engineHandle event = some result := by
  cases event with
  | linkStateReceived id version linkState routerInstance now =>
      simp only [engineHandle, linkStateReceivedCaught_of_eq_some returned]
  | _ => exact returned

/-- A run in which no handler raises is also the engine's run. -/
theorem engineRun_of_run (tracker : NodeTracker) (events : List TrackerEvent)
    {result : NodeTracker × List AdapterCall} (returned : tracker.run events = some result) :
    tracker.engineRun events = some result := by
  induction events generalizing tracker result with
  | nil => exact returned
  | cons event more ih =>
      obtain ⟨⟨tracker', calls⟩, handled, rest⟩ := Option.bind_eq_some_iff.mp returned
      dsimp only at rest
      obtain ⟨final, ran, rfl⟩ := Option.map_eq_some_iff.mp rest
      rw [engineRun, engineHandle_of_eq_some handled, Option.bind_some]
      dsimp only
      rw [ih tracker' ran]
      rfl

end NodeTracker

/-! ### With every mask bit taken

A peer that is new takes a mask bit, so once none is left the first new peer
raises, before anything has changed; the link state stored before it stays. -/

namespace NodeTracker

/-- With every mask bit taken, the loop over the peers changes nothing, and it
raises exactly when a peer is neither known nor this router. -/
theorem learnPeers_exhausted (peers : List String) (state : NodeTracker × List AdapterCall)
    (exhausted : state.1.nextMaskbit = none) :
    (learnPeers peers state).1 = state ∧
      ((learnPeers peers state).2 = true ↔ ∃ peer ∈ peers, peer ∉ state.1.nodes.keys ∧ peer ≠ state.1.myId) := by
  induction peers with
  | nil => simp [learnPeers]
  | cons peer more ih =>
      rw [learnPeers]
      by_cases known : peer ∈ state.1.nodes.keys
      · rw [if_neg (not_not.mpr known)]
        simpa [known] using ih
      rw [if_pos known]
      by_cases self : peer = state.1.myId
      · -- `router_learned` of this router learns nothing
        have learned : state.1.routerLearned peer none = some (state.1, []) := by
          rw [routerLearned, if_neg fun fresh => fresh.2 self]
        rw [learned]
        dsimp only
        rw [List.append_nil]
        simpa [self] using ih
      · -- a new router finds no mask bit: `_allocate_maskbit` raises
        have raised : state.1.routerLearned peer none = none := by
          simp only [routerLearned, if_pos (And.intro known self), createNode, allocateMaskbit,
            exhausted, Option.map_none]
        rw [raised]
        exact ⟨rfl, iff_of_true rfl ⟨peer, List.mem_cons_self, known, self⟩⟩

/-- Filling in a node's version keeps its id and link state. -/
theorem fillVersion_id_linkState (node : RouterNode) (version : Option Nat) :
    (if node.version.isNone then { node with version } else node).id = node.id ∧
      (if node.version.isNone then { node with version } else node).linkState = node.linkState := by
  split <;> exact ⟨rfl, rfl⟩

/-- With every mask bit taken, a newer link state of a known router is stored,
no peer is learned, and the handler raises exactly when the state names a router
neither known nor this one. -/
theorem linkStateReceivedCaught_exhausted {tracker : NodeTracker} {id : String} {node : RouterNode}
    (stored : tracker.nodes.get? id = some node) (named : node.id = id) (exhausted : tracker.nextMaskbit = none)
    {linkState : LinkState} (newer : node.linkState.lsSeq < linkState.lsSeq)
    (version routerInstance : Option Nat) (now : Nat) :
    let filled := if node.version.isNone then { node with version } else node
    tracker.linkStateReceivedCaught id version linkState routerInstance now =
      (({ tracker.putNode { filled with linkState := { linkState with lastSeen := now } } with
          recomputeTopology := true }, []),
        decide (∃ peer ∈ linkState.peers.keys, peer ∉ tracker.nodes.keys ∧ peer ≠ tracker.myId)) := by
  intro filled
  have known : id ∈ tracker.nodes.keys := Dict.mem_keys_iff.mpr (by simp [stored])
  have ensured : tracker.ensureNode id version routerInstance = some (tracker, [], node) := by
    simp [ensureNode, known, stored]
  obtain ⟨sameId, sameState⟩ := fillVersion_id_linkState node version
  rw [linkStateReceivedCaught, ensured]
  dsimp only
  rw [if_pos (by rw [sameState]; exact newer)]
  -- the tracker the loop starts from has the same keys and bits
  obtain ⟨same, raised⟩ := learnPeers_exhausted linkState.peers.keys
    ({ tracker.putNode { filled with linkState := { linkState with lastSeen := now } } with
      recomputeTopology := true }, []) exhausted
  have keys : (tracker.putNode { filled with linkState := { linkState with lastSeen := now } }).nodes.keys =
      tracker.nodes.keys := by
    exact Dict.keys_set_of_mem (sameId.trans named ▸ known) _
  refine Prod.ext same (Bool.eq_iff_iff.mpr ?_)
  rw [raised, decide_eq_true_iff]
  dsimp only
  rw [keys]
  -- storing a node keeps `my_id`
  exact Iff.rfl

/-- With every mask bit taken, a newer link state of a known router that names a
router neither known nor this one leaves the engine's tracker with a stored link
state naming a router it does not know. -/
theorem not_peersKnown_of_exhausted {tracker : NodeTracker} {id : String} {node : RouterNode}
    (stored : tracker.nodes.get? id = some node) (named : node.id = id) (exhausted : tracker.nextMaskbit = none)
    {linkState : LinkState} (newer : node.linkState.lsSeq < linkState.lsSeq) {peer : String}
    (listed : peer ∈ linkState.peers.keys) (unknown : peer ∉ tracker.nodes.keys) (other : peer ≠ tracker.myId)
    (version routerInstance : Option Nat) (now : Nat) :
    ¬(tracker.linkStateReceivedCaught id version linkState routerInstance now).1.1.PeersKnown := by
  rw [linkStateReceivedCaught_exhausted stored named exhausted newer]
  rintro ⟨-, stale⟩
  have known : id ∈ tracker.nodes.keys := Dict.mem_keys_iff.mpr (by simp [stored])
  obtain ⟨sameId, -⟩ := fillVersion_id_linkState node version
  let updated := { (if node.version.isNone then { node with version } else node) with
    linkState := { linkState with lastSeen := now } }
  have found : (tracker.putNode updated).nodes.get? updated.id = some updated := by
    rw [putNode, Dict.get?_set, if_pos rfl]
  have keys : (tracker.putNode updated).nodes.keys = tracker.nodes.keys :=
    Dict.keys_set_of_mem (sameId.trans named ▸ known) updated
  -- the new link state is stored, and it names `peer`
  rcases stale _ (Dict.mem_entries_of_get? found) peer listed with self | learned
  · exact other self
  · exact unknown (keys ▸ learned)

end NodeTracker

/-! ### A link state that names more routers than there are mask bits

Router `X` tracks at most three routers, itself included. Its neighbor `A`
takes the first free bit; `A`'s link state names `B` and `C`, and `B` takes the
last bit. Learning `C` raises, and the engine logs it; `A`'s link state, stored
before, still names `C`. The next tick's recompute finds a next hop towards `C`
and raises on the lookup of `nodes["C"]`. -/

/-- The events of the run above, at router `X`. -/
def exhaustedEvents : List TrackerEvent :=
  [.neighborRefresh "A" (some 1) (some 1) 1 1 0,
   .linkStateReceived "A" (some 1) ⟨"A", 1, Dict.ofList [("X", 1), ("B", 1), ("C", 1)], 0⟩ (some 1) 0]

theorem link_state_names_unknown_peer :
    ∃ result ∈ (NodeTracker.init "X" 3 3 60 4).engineRun exhaustedEvents,
      result.1.nodes.keys = ["A", "B"] ∧ result.1.nextMaskbit = none ∧
      ((result.1.nodes.get? "A").map fun node => node.linkState.peers.keys) = some ["X", "B", "C"] ∧
      ¬result.1.PeersKnown ∧ result.1.tick 1 = none := by
  decide +kernel

end DispatchRouter.Router
