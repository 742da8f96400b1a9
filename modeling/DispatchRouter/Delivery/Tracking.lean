/-
# Balanced-delivery tracking

`qdr_forward_balanced_CT` sends each delivery of a balanced address to one
link. When that link goes to a peer router and the incoming delivery is not
settled, it counts the new delivery against the address, under the peer's
connection bit: `outstanding_deliveries[bit]` and `tracked_deliveries` go up
and the delivery remembers the address and the bit. Three paths take the count
back and make the delivery forget the address: `qdr_delivery_settled_CT`,
`qdr_delete_delivery_internal_CT` and the loop over a link's unsettled list in
`qdr_link_cleanup_deliveries_CT`. When nothing is tracked against the address
any more they call `qdr_check_addr_CT`, which frees an address that has no use
left.

`Accounting` says the counters are the number of live deliveries that remember
the address, that every address a delivery remembers is live, and that every
connection bit is below the width of the bitmask. Every call keeps it
(`Accounting.step`), so it holds after every run from the start.
-/

import DispatchRouter.Math.Tally
import DispatchRouter.Math.Mealy
import Mathlib.Algebra.BigOperators.Ring.Finset

namespace DispatchRouter.Delivery

open Math

/-! ### The model -/

/-- `qdr_delivery_t`, as far as tracking reads it: the address it is counted
against, if any, and the connection bit it is counted under. -/
structure QdrDelivery where
  trackingAddr : Option Nat
  trackingAddrBit : Nat
  deriving DecidableEq, Repr

/-- `qdr_address_t`, as far as tracking reads it. `inUse` stands for the other
conditions of `qdr_check_addr_CT`: subscriptions, rlinks, inlinks, rnodes,
`ref_count`, `core_endpoint` and `fallback_for`. -/
structure QdrAddress where
  outstandingDeliveries : Nat → Int
  trackedDeliveries : Int
  inUse : Bool

/-- `qdr_core_t`, as far as tracking reads it: the live addresses and
deliveries by number, deliveries numbered in the order they are made. -/
structure QdrCore where
  addrs : Nat → Option QdrAddress
  deliveries : Nat → Option QdrDelivery
  nextDelivery : Nat

/-- The core before any address or delivery is made. -/
def QdrCore.initial : QdrCore :=
  ⟨fun _ => none, fun _ => none, 0⟩

/-- `qdr_check_addr_CT`, as far as tracking goes: an address with no other use
and nothing tracked against it is removed. -/
def qdrCheckAddr (core : QdrCore) (a : Nat) : QdrCore :=
  match core.addrs a with
  | some addr =>
      if !addr.inUse && addr.trackedDeliveries == 0 then { core with addrs := Function.update core.addrs a none }
      else core
  | none => core

/-- `outstanding_deliveries[chosen_conn_bit]++` and `tracked_deliveries++`. -/
def QdrAddress.track (addr : QdrAddress) (bit : Nat) : QdrAddress :=
  { addr with
    outstandingDeliveries := Function.update addr.outstandingDeliveries bit (addr.outstandingDeliveries bit + 1)
    trackedDeliveries := addr.trackedDeliveries + 1 }

/-- The tracking part of `qdr_forward_balanced_CT`: a new delivery goes to the
chosen link, and is counted when the link goes to a peer (`chosenConnBit`,
none for `-1`) and `in_delivery && !in_delivery->settled`. No address, no
forward. -/
def qdrForwardBalanced (core : QdrCore) (a : Nat) (chosenConnBit : Option Nat)
    (inDeliveryUnsettled : Bool) : QdrCore :=
  let untracked : QdrCore :=
    { core with
      deliveries := Function.update core.deliveries core.nextDelivery (some ⟨none, 0⟩)
      nextDelivery := core.nextDelivery + 1 }
  match core.addrs a, chosenConnBit with
  | some addr, some c =>
      if inDeliveryUnsettled then
        { addrs := Function.update core.addrs a (some (addr.track c))
          deliveries := Function.update core.deliveries core.nextDelivery (some ⟨some a, c⟩)
          nextDelivery := core.nextDelivery + 1 }
      else untracked
  | some _, none => untracked
  | none, _ => core

/-- `outstanding_deliveries[bit]--` and `tracked_deliveries--`. -/
def QdrAddress.untrack (addr : QdrAddress) (bit : Nat) : QdrAddress :=
  { addr with
    outstandingDeliveries := Function.update addr.outstandingDeliveries bit (addr.outstandingDeliveries bit - 1)
    trackedDeliveries := addr.trackedDeliveries - 1 }

/-- The block the three paths share: `if (dlv->tracking_addr) { ... }`. The
count is taken back, the address checked once nothing is tracked against it,
and the delivery forgets the address. Nothing comes back when the address was
freed: the code would write to freed memory. -/
def untrackDelivery (core : QdrCore) (d : Nat) : Option QdrCore :=
  match core.deliveries d with
  | some dlv =>
      match dlv.trackingAddr with
      | some a =>
          match core.addrs a with
          | some addr =>
              let addr := addr.untrack dlv.trackingAddrBit
              let counted : QdrCore := { core with addrs := Function.update core.addrs a (some addr) }
              let checked := if addr.trackedDeliveries == 0 then qdrCheckAddr counted a else counted
              some { checked with
                deliveries := Function.update checked.deliveries d (some { dlv with trackingAddr := none }) }
          | none => none
      | none => some core
  | none => some core

/-- The calls that move the tracking counters, and those that make and release
addresses. -/
inductive TrackingOp
  /-- `qdr_forward_balanced_CT` forwards a delivery of an address. -/
  | forwardBalanced (addr : Nat) (chosenConnBit : Option Nat) (inDeliveryUnsettled : Bool)
  /-- `qdr_delivery_settled_CT`; `linked` is `link && conn`. -/
  | deliverySettled (delivery : Nat) (linked : Bool)
  /-- `qdr_delete_delivery_internal_CT`: the last reference is gone. -/
  | deleteDelivery (delivery : Nat)
  /-- The loop over the unsettled list in `qdr_link_cleanup_deliveries_CT`,
  not at shutdown. -/
  | linkCleanupUnsettled (unsettled : List Nat)
  /-- An address is made (`qdr_add_local_address_CT` and its kin), in use. -/
  | addAddress (addr : Nat)
  /-- An address loses its other uses and `qdr_check_addr_CT` runs. -/
  | releaseAddress (addr : Nat)

/-- One call; nothing when it touches a freed address. -/
def trackingStep (core : QdrCore) : TrackingOp → Option QdrCore
  | .forwardBalanced a chosenConnBit inDeliveryUnsettled =>
      some (qdrForwardBalanced core a chosenConnBit inDeliveryUnsettled)
  | .deliverySettled d linked => if linked then untrackDelivery core d else some core
  | .deleteDelivery d =>
      (untrackDelivery core d).map fun core => { core with deliveries := Function.update core.deliveries d none }
  | .linkCleanupUnsettled unsettled => unsettled.foldlM untrackDelivery core
  | .addAddress a =>
      match core.addrs a with
      | some _ => some core
      | none => some { core with addrs := Function.update core.addrs a (some ⟨fun _ => 0, 0, true⟩) }
  | .releaseAddress a =>
      match core.addrs a with
      | some addr => some (qdrCheckAddr { core with addrs := Function.update core.addrs a (some { addr with inUse := false }) } a)
      | none => some core

/-- A run of calls, unless one touches a freed address. -/
def trackingRun (core : QdrCore) (ops : List TrackingOp) : Option QdrCore :=
  ops.foldlM trackingStep core

/-- Every connection bit a forward counts under is below `width`. -/
def TrackingOp.bitBelow (width : Nat) : TrackingOp → Bool
  | .forwardBalanced _ (some c) _ => decide (c < width)
  | _ => true

/-! ### What the counters count -/

/-- A slot weighs one when it holds a delivery counted against `a` under `c`. -/
def countedUnder (a c : Nat) : Option QdrDelivery → Nat
  | some dlv => if dlv.trackingAddr = some a ∧ dlv.trackingAddrBit = c then 1 else 0
  | none => 0

/-- A slot weighs one when it holds a delivery counted against `a`. -/
def countedAgainst (a : Nat) : Option QdrDelivery → Nat
  | some dlv => if dlv.trackingAddr = some a then 1 else 0
  | none => 0

/-- The live deliveries counted against `a` under `c`. -/
def QdrCore.outstanding (core : QdrCore) (a c : Nat) : Nat :=
  Tally.tally (countedUnder a c) core.deliveries core.nextDelivery

/-- The live deliveries counted against `a`. -/
def QdrCore.tracked (core : QdrCore) (a : Nat) : Nat :=
  Tally.tally (countedAgainst a) core.deliveries core.nextDelivery

/-- The counters of every live address are the number of live deliveries
counted against it, every address a delivery is counted against is live, and
every bit a delivery is counted under is below `width`. -/
structure Accounting (width : Nat) (core : QdrCore) : Prop where
  fresh : ∀ d, core.nextDelivery ≤ d → core.deliveries d = none
  outstanding : ∀ a addr, core.addrs a = some addr → ∀ c, addr.outstandingDeliveries c = core.outstanding a c
  tracked : ∀ a addr, core.addrs a = some addr → addr.trackedDeliveries = core.tracked a
  live : ∀ d dlv a, core.deliveries d = some dlv → dlv.trackingAddr = some a → core.addrs a ≠ none
  bits : ∀ d dlv a, core.deliveries d = some dlv → dlv.trackingAddr = some a → dlv.trackingAddrBit < width

theorem accounting_initial (width : Nat) : Accounting width QdrCore.initial where
  fresh _ _ := rfl
  outstanding _ _ none := nomatch none
  tracked _ _ none := nomatch none
  live _ _ _ none := nomatch none
  bits _ _ _ none := nomatch none

theorem countedUnder_untracked {dlv : QdrDelivery} (untracked : dlv.trackingAddr = none) (a c : Nat) :
    countedUnder a c (some dlv) = 0 := by
  simp [countedUnder, untracked]

theorem countedAgainst_untracked {dlv : QdrDelivery} (untracked : dlv.trackingAddr = none) (a : Nat) :
    countedAgainst a (some dlv) = 0 := by
  simp [countedAgainst, untracked]

variable {width : Nat} {core : QdrCore}

namespace Accounting

theorem lt_next (accounting : Accounting width core) {d : Nat} {dlv : QdrDelivery}
    (stored : core.deliveries d = some dlv) : d < core.nextDelivery := by
  by_contra beyond
  rw [accounting.fresh d (Nat.le_of_not_lt beyond)] at stored
  exact nomatch stored

/-- Nothing is counted against an address whose tracked count is zero. -/
theorem not_counted (accounting : Accounting width core) {a : Nat} (zero : core.tracked a = 0)
    {d : Nat} {dlv : QdrDelivery} (stored : core.deliveries d = some dlv) : dlv.trackingAddr ≠ some a := by
  intro counted
  have weightless := Tally.tally_eq_zero_iff (countedAgainst a) |>.mp zero d (accounting.lt_next stored)
  simp [stored, countedAgainst, counted] at weightless

/-- Nothing is counted against an address that is not live. -/
theorem counts_of_absent (accounting : Accounting width core) {a : Nat} (absent : core.addrs a = none) :
    core.tracked a = 0 ∧ ∀ c, core.outstanding a c = 0 := by
  have uncounted : ∀ i, ∀ dlv, core.deliveries i = some dlv → dlv.trackingAddr ≠ some a :=
    fun i dlv stored counted => accounting.live i dlv a stored counted absent
  refine ⟨(Tally.tally_eq_zero_iff _).mpr fun i _ => ?_, fun c => (Tally.tally_eq_zero_iff _).mpr fun i _ => ?_⟩
  · cases stored : core.deliveries i with
    | none => rfl
    | some dlv => simp [countedAgainst, uncounted i dlv stored]
  · cases stored : core.deliveries i with
    | none => rfl
    | some dlv => simp [countedUnder, uncounted i dlv stored]

end Accounting

/-! ### Addresses -/

namespace Accounting

/-- Writing one address keeps the invariant when what is written counts what
the deliveries count, and an address is removed only with nothing counted
against it. -/
theorem setAddr (accounting : Accounting width core) (a : Nat) (new : Option QdrAddress)
    (counts : ∀ addr, new = some addr →
      (∀ c, addr.outstandingDeliveries c = core.outstanding a c) ∧ addr.trackedDeliveries = core.tracked a)
    (uncounted : new = none → core.tracked a = 0) :
    Accounting width { core with addrs := Function.update core.addrs a new } where
  fresh := accounting.fresh
  outstanding a' addr stored c := by
    by_cases same : a' = a
    · subst same
      simp only [Function.update_self] at stored
      exact (counts addr stored).1 c
    · simp only [Function.update_of_ne same] at stored
      exact accounting.outstanding a' addr stored c
  tracked a' addr stored := by
    by_cases same : a' = a
    · subst same
      simp only [Function.update_self] at stored
      exact (counts addr stored).2
    · simp only [Function.update_of_ne same] at stored
      exact accounting.tracked a' addr stored
  live d dlv a' stored counted := by
    by_cases same : a' = a
    · subst same
      simp only [Function.update_self]
      cases new with
      | some _ => exact Option.some_ne_none _
      | none => exact absurd counted (accounting.not_counted (uncounted rfl) stored)
    · simp only [Function.update_of_ne same]
      exact accounting.live d dlv a' stored counted
  bits := accounting.bits

/-- `qdr_check_addr_CT` frees an address only when nothing is counted against it. -/
theorem checkAddr (accounting : Accounting width core) (a : Nat) :
    Accounting width (qdrCheckAddr core a) := by
  unfold qdrCheckAddr
  split
  · rename_i addr stored
    split
    · rename_i free
      have zero : addr.trackedDeliveries = 0 := by simpa using (Bool.and_eq_true _ _ |>.mp free).2
      have uncounted : core.tracked a = 0 := by
        have counted := accounting.tracked a addr stored
        omega
      exact accounting.setAddr a none (fun _ none => nomatch none) fun _ => uncounted
    · exact accounting
  · exact accounting

end Accounting

/-- The check reads and writes only addresses. -/
theorem qdrCheckAddr_deliveries (core : QdrCore) (a : Nat) (deliveries : Nat → Option QdrDelivery) :
    { qdrCheckAddr core a with deliveries := deliveries } = qdrCheckAddr { core with deliveries := deliveries } a := by
  unfold qdrCheckAddr
  cases core.addrs a with
  | none => rfl
  | some addr => by_cases free : (!addr.inUse && addr.trackedDeliveries == 0) = true <;> simp [free]

theorem qdrCheckAddr_deliveries_eq (core : QdrCore) (a : Nat) : (qdrCheckAddr core a).deliveries = core.deliveries := by
  unfold qdrCheckAddr
  cases core.addrs a with
  | none => rfl
  | some addr => by_cases free : (!addr.inUse && addr.trackedDeliveries == 0) = true <;> simp [free]

/-! ### Moving a count -/

theorem countedUnder_some {dlv : QdrDelivery} {a : Nat} (counted : dlv.trackingAddr = some a) (a' c : Nat) :
    countedUnder a' c (some dlv) = if a' = a ∧ c = dlv.trackingAddrBit then 1 else 0 := by
  by_cases same : a' = a ∧ c = dlv.trackingAddrBit
  · simp [countedUnder, counted, same.1, same.2]
  · rw [if_neg same]
    simp only [countedUnder, counted, Option.some.injEq]
    rw [if_neg fun hit => same ⟨hit.1.symm, hit.2.symm⟩]

theorem countedAgainst_some {dlv : QdrDelivery} {a : Nat} (counted : dlv.trackingAddr = some a) (a' : Nat) :
    countedAgainst a' (some dlv) = if a' = a then 1 else 0 := by
  by_cases same : a' = a
  · simp [countedAgainst, counted, same]
  · simp [countedAgainst, counted, Ne.symm same, same]

theorem untrack_outstanding (addr : QdrAddress) (bit c : Nat) :
    (addr.untrack bit).outstandingDeliveries c = addr.outstandingDeliveries c - if c = bit then 1 else 0 := by
  by_cases same : c = bit
  · subst same
    simp [QdrAddress.untrack]
  · simp [QdrAddress.untrack, same]

theorem track_outstanding (addr : QdrAddress) (bit c : Nat) :
    (addr.track bit).outstandingDeliveries c = addr.outstandingDeliveries c + if c = bit then 1 else 0 := by
  by_cases same : c = bit
  · subst same
    simp [QdrAddress.track]
  · simp [QdrAddress.track, same]

namespace Accounting

/-- The shared argument of every call that moves a count: when one address is
rewritten and every tally moves by what that address's counters move by, the
counters still count. -/
theorem reweigh (accounting : Accounting width core) {core' : QdrCore} {a : Nat} {addr : QdrAddress}
    (live : core.addrs a = some addr) (addr' : QdrAddress) (addrs : core'.addrs = Function.update core.addrs a (some addr'))
    (under : ∀ a' c, (core'.outstanding a' c : Int) =
      core.outstanding a' c + if a' = a then addr'.outstandingDeliveries c - addr.outstandingDeliveries c else 0)
    (against : ∀ a', (core'.tracked a' : Int) =
      core.tracked a' + if a' = a then addr'.trackedDeliveries - addr.trackedDeliveries else 0)
    (fresh : ∀ d, core'.nextDelivery ≤ d → core'.deliveries d = none)
    (stillLive : ∀ d dlv a', core'.deliveries d = some dlv → dlv.trackingAddr = some a' → core'.addrs a' ≠ none)
    (bits : ∀ d dlv a', core'.deliveries d = some dlv → dlv.trackingAddr = some a' → dlv.trackingAddrBit < width) :
    Accounting width core' where
  fresh := fresh
  outstanding a' addr'' stored c := by
    have moved := under a' c
    rw [addrs] at stored
    by_cases same : a' = a
    · subst same
      simp only [Function.update_self, Option.some.injEq] at stored
      subst stored
      simp only [if_true] at moved
      have counted := accounting.outstanding a' addr live c
      omega
    · simp only [Function.update_of_ne same] at stored
      simp only [same, if_false, Int.add_zero] at moved
      rw [moved]
      exact accounting.outstanding a' addr'' stored c
  tracked a' addr'' stored := by
    have moved := against a'
    rw [addrs] at stored
    by_cases same : a' = a
    · subst same
      simp only [Function.update_self, Option.some.injEq] at stored
      subst stored
      simp only [if_true] at moved
      have counted := accounting.tracked a' addr live
      omega
    · simp only [Function.update_of_ne same] at stored
      simp only [same, if_false, Int.add_zero] at moved
      rw [moved]
      exact accounting.tracked a' addr'' stored
  live := stillLive
  bits := bits

end Accounting

/-! ### Taking a count back -/

/-- Clearing a slot that held `old` takes the weight of `old` off the tally. -/
theorem tally_clear {d : Nat} {old new : QdrDelivery} (below : d < core.nextDelivery)
    (stored : core.deliveries d = some old) (weight : Option QdrDelivery → Nat) (weightless : weight (some new) = 0) :
    Tally.tally weight (Function.update core.deliveries d (some new)) core.nextDelivery + weight (some old) =
      Tally.tally weight core.deliveries core.nextDelivery := by
  have traded := @Tally.tally_update QdrDelivery weight core.deliveries core.nextDelivery d below (some new)
  rwa [stored, weightless, Nat.add_zero] at traded

namespace Accounting

/-- The two decrements and the cleared delivery keep the counts. -/
theorem clear (accounting : Accounting width core) {d a : Nat} {dlv : QdrDelivery} {addr : QdrAddress}
    (stored : core.deliveries d = some dlv) (counted : dlv.trackingAddr = some a) (live : core.addrs a = some addr) :
    Accounting width
      { core with
        addrs := Function.update core.addrs a (some (addr.untrack dlv.trackingAddrBit))
        deliveries := Function.update core.deliveries d (some { dlv with trackingAddr := none }) } := by
  have below := accounting.lt_next stored
  have untracked : ({ dlv with trackingAddr := none } : QdrDelivery).trackingAddr = none := rfl
  refine accounting.reweigh live _ rfl ?under ?against ?fresh ?live ?bits
  case under =>
    intro a' c
    have taken := tally_clear below stored (countedUnder a' c) (countedUnder_untracked untracked a' c)
    rw [countedUnder_some counted] at taken
    unfold QdrCore.outstanding
    rw [untrack_outstanding]
    by_cases same : a' = a <;> by_cases bit : c = dlv.trackingAddrBit <;>
      simp only [same, bit, and_self, and_true, and_false, if_true, if_false] at taken ⊢ <;> omega
  case against =>
    intro a'
    have taken := tally_clear below stored (countedAgainst a') (countedAgainst_untracked untracked a')
    rw [countedAgainst_some counted] at taken
    unfold QdrCore.tracked
    by_cases same : a' = a <;> simp only [same, QdrAddress.untrack, if_true, if_false] at taken ⊢ <;> omega
  case fresh =>
    intro d' beyond
    change core.nextDelivery ≤ d' at beyond
    simp only [Function.update_of_ne (show d' ≠ d by omega)]
    exact accounting.fresh d' beyond
  case live =>
    intro d' dlv' a' stored' counted'
    by_cases same : d' = d
    · subst same
      simp only [Function.update_self, Option.some.injEq] at stored'
      subst stored'
      exact nomatch counted'
    · simp only [Function.update_of_ne same] at stored'
      by_cases home : a' = a
      · subst home
        simp
      · simp only [Function.update_of_ne home]
        exact accounting.live d' dlv' a' stored' counted'
  case bits =>
    intro d' dlv' a' stored' counted'
    by_cases same : d' = d
    · subst same
      simp only [Function.update_self, Option.some.injEq] at stored'
      subst stored'
      exact nomatch counted'
    · simp only [Function.update_of_ne same] at stored'
      exact accounting.bits d' dlv' a' stored' counted'

end Accounting

namespace Accounting

/-- The shared block never touches a freed address, keeps the counts, and
leaves the delivery, if live, counted against nothing. -/
theorem untrack (accounting : Accounting width core) (d : Nat) :
    ∃ core', untrackDelivery core d = some core' ∧ Accounting width core' ∧
      ∀ dlv, core'.deliveries d = some dlv → dlv.trackingAddr = none := by
  cases stored : core.deliveries d with
  | none =>
      refine ⟨core, by simp only [untrackDelivery, stored], accounting, fun dlv held => ?_⟩
      rw [stored] at held
      exact nomatch held
  | some dlv =>
      cases counted : dlv.trackingAddr with
      | none =>
          refine ⟨core, by simp only [untrackDelivery, stored, counted], accounting, fun dlv' held => ?_⟩
          rw [stored, Option.some.injEq] at held
          exact held ▸ counted
      | some a =>
          cases live : core.addrs a with
          | none => exact absurd live (accounting.live d dlv a stored counted)
          | some addr =>
              have cleared := accounting.clear stored counted live
              simp only [untrackDelivery, stored, counted, live]
              refine ⟨_, rfl, ?_, fun dlv' held => ?_⟩
              · -- the check reads only addresses, so it may come after the delivery is cleared
                split
                · rw [qdrCheckAddr_deliveries_eq, qdrCheckAddr_deliveries]
                  exact cleared.checkAddr a
                · exact cleared
              · simp only [Function.update_self, Option.some.injEq] at held
                subst held
                rfl

/-- A delivery counted against nothing is freed without changing a count. -/
theorem forget (accounting : Accounting width core) (d : Nat)
    (forgotten : ∀ dlv, core.deliveries d = some dlv → dlv.trackingAddr = none) :
    Accounting width { core with deliveries := Function.update core.deliveries d none } := by
  -- the slot weighs nothing before and after
  have weightless : ∀ (weight : Option QdrDelivery → Nat), weight none = 0 →
      (∀ dlv : QdrDelivery, dlv.trackingAddr = none → weight (some dlv) = 0) →
        ∀ i, weight (Function.update core.deliveries d none i) = weight (core.deliveries i) := by
    intro weight empty untracked i
    by_cases same : i = d
    · subst same
      rw [Function.update_self, empty]
      cases stored : core.deliveries i with
      | none => exact empty.symm
      | some dlv => exact (untracked dlv (forgotten dlv stored)).symm
    · rw [Function.update_of_ne same]
  refine ⟨fun d' beyond => ?_, fun a addr stored c => ?_, fun a addr stored => ?_, fun d' dlv a stored' counted => ?_,
    fun d' dlv a stored' counted => ?_⟩
  · by_cases same : d' = d
    · subst same
      exact Function.update_self ..
    · simp only [Function.update_of_ne same]
      exact accounting.fresh d' beyond
  · rw [accounting.outstanding a addr stored c]
    unfold QdrCore.outstanding
    congr 1
    exact Tally.tally_congr _ fun i _ =>
      (weightless _ rfl (fun dlv untracked => countedUnder_untracked untracked a c) i).symm
  · rw [accounting.tracked a addr stored]
    unfold QdrCore.tracked
    congr 1
    exact Tally.tally_congr _ fun i _ =>
      (weightless _ rfl (fun dlv untracked => countedAgainst_untracked untracked a) i).symm
  · by_cases same : d' = d
    · subst same
      simp at stored'
    · simp only [Function.update_of_ne same] at stored'
      exact accounting.live d' dlv a stored' counted
  · by_cases same : d' = d
    · subst same
      simp at stored'
    · simp only [Function.update_of_ne same] at stored'
      exact accounting.bits d' dlv a stored' counted

end Accounting

/-! ### Counting a forward -/

namespace Accounting

theorem fresh_append (accounting : Accounting width core) (new : QdrDelivery) :
    ∀ d, core.nextDelivery + 1 ≤ d → Function.update core.deliveries core.nextDelivery (some new) d = none := by
  intro d beyond
  rw [Function.update_of_ne (show d ≠ core.nextDelivery by omega)]
  exact accounting.fresh d (by omega)

/-- A delivery counted against nothing adds nothing. -/
theorem appendUntracked (accounting : Accounting width core) :
    Accounting width
      { core with
        deliveries := Function.update core.deliveries core.nextDelivery (some ⟨none, 0⟩)
        nextDelivery := core.nextDelivery + 1 } where
  fresh := accounting.fresh_append _
  outstanding a addr stored c := by
    rw [accounting.outstanding a addr stored c]
    simp [QdrCore.outstanding, Tally.tally_update_succ, countedUnder]
  tracked a addr stored := by
    rw [accounting.tracked a addr stored]
    simp [QdrCore.tracked, Tally.tally_update_succ, countedAgainst]
  live d dlv a stored counted := by
    by_cases same : d = core.nextDelivery
    · subst same
      simp only [Function.update_self, Option.some.injEq] at stored
      subst stored
      exact nomatch counted
    · simp only [Function.update_of_ne same] at stored
      exact accounting.live d dlv a stored counted
  bits d dlv a stored counted := by
    by_cases same : d = core.nextDelivery
    · subst same
      simp only [Function.update_self, Option.some.injEq] at stored
      subst stored
      exact nomatch counted
    · simp only [Function.update_of_ne same] at stored
      exact accounting.bits d dlv a stored counted

/-- A delivery counted against a live address under a bit below the width
moves the address's counters as it moves the tallies. -/
theorem appendTracked (accounting : Accounting width core) {a c : Nat} {addr : QdrAddress}
    (live : core.addrs a = some addr) (bit : c < width) :
    Accounting width
      { addrs := Function.update core.addrs a (some (addr.track c))
        deliveries := Function.update core.deliveries core.nextDelivery (some ⟨some a, c⟩)
        nextDelivery := core.nextDelivery + 1 } := by
  have counted : (⟨some a, c⟩ : QdrDelivery).trackingAddr = some a := rfl
  refine accounting.reweigh live _ rfl ?under ?against (accounting.fresh_append _) ?live ?bits
  case under =>
    intro a' c'
    unfold QdrCore.outstanding
    rw [Tally.tally_update_succ, countedUnder_some counted, track_outstanding]
    by_cases same : a' = a <;> by_cases bit : c' = c <;>
      simp only [same, bit, and_self, and_true, and_false, if_true, if_false] <;> omega
  case against =>
    intro a'
    unfold QdrCore.tracked
    rw [Tally.tally_update_succ, countedAgainst_some counted]
    by_cases same : a' = a <;> simp only [same, QdrAddress.track, if_true, if_false] <;> omega
  case live =>
    intro d dlv a' stored counted'
    by_cases home : a' = a
    · subst home
      simp
    · simp only [Function.update_of_ne home]
      by_cases same : d = core.nextDelivery
      · subst same
        simp only [Function.update_self, Option.some.injEq] at stored
        subst stored
        exact absurd (Option.some.inj counted').symm home
      · simp only [Function.update_of_ne same] at stored
        exact accounting.live d dlv a' stored counted'
  case bits =>
    intro d dlv a' stored counted'
    by_cases same : d = core.nextDelivery
    · subst same
      simp only [Function.update_self, Option.some.injEq] at stored
      subst stored
      exact bit
    · simp only [Function.update_of_ne same] at stored
      exact accounting.bits d dlv a' stored counted'

/-- `qdr_forward_balanced_CT` counts exactly the deliveries it tracks. -/
theorem forward (accounting : Accounting width core) (a : Nat) (chosenConnBit : Option Nat)
    (inDeliveryUnsettled : Bool) (bit : ∀ c, chosenConnBit = some c → c < width) :
    Accounting width (qdrForwardBalanced core a chosenConnBit inDeliveryUnsettled) := by
  unfold qdrForwardBalanced
  cases live : core.addrs a with
  | none => exact accounting
  | some addr =>
      cases chosenConnBit with
      | none => exact accounting.appendUntracked
      | some c =>
          cases inDeliveryUnsettled with
          | true => exact accounting.appendTracked live (bit c rfl)
          | false => exact accounting.appendUntracked

/-! ### Making and releasing addresses -/

/-- A new address counts nothing, as nothing is counted against it yet. -/
theorem addAddress (accounting : Accounting width core) {a : Nat} (absent : core.addrs a = none) :
    Accounting width { core with addrs := Function.update core.addrs a (some ⟨fun _ => 0, 0, true⟩) } := by
  obtain ⟨trackedZero, outstandingZero⟩ := accounting.counts_of_absent absent
  refine accounting.setAddr a (some ⟨fun _ => 0, 0, true⟩) (fun addr made => ?_) (fun made => nomatch made)
  rw [Option.some.injEq] at made
  subst made
  exact ⟨fun c => by rw [outstandingZero c]; rfl, by rw [trackedZero]; rfl⟩

/-- An address that loses its other uses keeps its counters, and is freed only
if nothing is counted against it. -/
theorem releaseAddress (accounting : Accounting width core) {a : Nat} {addr : QdrAddress}
    (live : core.addrs a = some addr) :
    Accounting width (qdrCheckAddr { core with addrs := Function.update core.addrs a (some { addr with inUse := false }) } a) := by
  refine (accounting.setAddr a (some { addr with inUse := false }) (fun addr' released => ?_)
    (fun released => nomatch released)).checkAddr a
  rw [Option.some.injEq] at released
  subst released
  exact ⟨accounting.outstanding a addr live, accounting.tracked a addr live⟩

/-! ### Runs -/

/-- Every call keeps the invariant and touches no freed address. -/
theorem step (accounting : Accounting width core) (op : TrackingOp) (bits : op.bitBelow width = true) :
    ∃ core', trackingStep core op = some core' ∧ Accounting width core' := by
  cases op with
  | forwardBalanced a chosenConnBit inDeliveryUnsettled =>
      refine ⟨_, rfl, accounting.forward a chosenConnBit inDeliveryUnsettled fun c chosen => ?_⟩
      subst chosen
      simpa [TrackingOp.bitBelow] using bits
  | deliverySettled d linked =>
      cases linked with
      | false => exact ⟨core, rfl, accounting⟩
      | true =>
          obtain ⟨core', untracked, kept, -⟩ := accounting.untrack d
          exact ⟨core', untracked, kept⟩
  | deleteDelivery d =>
      obtain ⟨core', untracked, kept, forgotten⟩ := accounting.untrack d
      exact ⟨_, by simp only [trackingStep, untracked, Option.map_some], kept.forget d forgotten⟩
  | linkCleanupUnsettled unsettled =>
      have keeps : ∀ (s : QdrCore) (d : Nat), Accounting width s → True →
          ∃ s', untrackDelivery s d = some s' ∧ Accounting width s' := fun s d kept _ =>
        (kept.untrack d).imp fun _ untracked => ⟨untracked.1, untracked.2.1⟩
      exact Mealy.foldlM_invariant untrackDelivery keeps unsettled accounting fun _ _ => trivial
  | addAddress a =>
      cases live : core.addrs a with
      | some addr => exact ⟨core, by simp only [trackingStep, live], accounting⟩
      | none => exact ⟨_, by simp only [trackingStep, live], accounting.addAddress live⟩
  | releaseAddress a =>
      cases live : core.addrs a with
      | some addr => exact ⟨_, by simp only [trackingStep, live], accounting.releaseAddress live⟩
      | none => exact ⟨core, by simp only [trackingStep, live], accounting⟩

/-- Every run of calls whose bits are below the width keeps the invariant and
touches no freed address; by induction on the run. -/
theorem run (accounting : Accounting width core) (ops : List TrackingOp)
    (bits : ∀ op ∈ ops, op.bitBelow width = true) :
    ∃ core', trackingRun core ops = some core' ∧ Accounting width core' := by
  have keeps : ∀ (s : QdrCore) (op : TrackingOp), Accounting width s → op.bitBelow width = true →
      ∃ s', trackingStep s op = some s' ∧ Accounting width s' := fun _ op kept ok => kept.step op ok
  exact Mealy.foldlM_invariant trackingStep keeps ops accounting bits

end Accounting

namespace Accounting

/-- Every bit being below the width, the deliveries counted against an address
are those counted under one of the bits below the width. -/
theorem tracked_eq_sum (accounting : Accounting width core) (a : Nat) :
    core.tracked a = ∑ c ∈ Finset.range width, core.outstanding a c := by
  refine Tally.tally_eq_sum _ (Finset.range width) (fun c => countedUnder a c) fun i _ => ?_
  cases stored : core.deliveries i with
  | none => simp [countedAgainst, countedUnder]
  | some dlv =>
      by_cases counted : dlv.trackingAddr = some a
      · have bit := accounting.bits i dlv a stored counted
        simp [countedAgainst, countedUnder, counted, eq_comm, bit]
      · simp [countedAgainst, countedUnder, counted]

/-- A live counted delivery is among those its address's counters count, so
taking its count back takes no counter below zero. -/
theorem one_le_counters (accounting : Accounting width core) {d a : Nat} {dlv : QdrDelivery} {addr : QdrAddress}
    (stored : core.deliveries d = some dlv) (counted : dlv.trackingAddr = some a) (live : core.addrs a = some addr) :
    1 ≤ addr.outstandingDeliveries dlv.trackingAddrBit ∧ 1 ≤ addr.trackedDeliveries := by
  have below := accounting.lt_next stored
  have under := Tally.weight_le_tally (countedUnder a dlv.trackingAddrBit) core.deliveries below
  have against := Tally.weight_le_tally (countedAgainst a) core.deliveries below
  rw [stored, countedUnder_some counted] at under
  rw [stored, countedAgainst_some counted] at against
  simp only [and_self, if_true] at under against
  rw [accounting.outstanding a addr live, accounting.tracked a addr live]
  exact ⟨by unfold QdrCore.outstanding; omega, by unfold QdrCore.tracked; omega⟩

end Accounting

/-- After every run of forwards, settlements, frees, unsettled-list cleanups and
address changes from the start, with every connection bit below the width of
the bitmask: no call touches a freed address; every live address's
`outstanding_deliveries[c]` is the number of live deliveries counted against it
under `c`, and `tracked_deliveries` is the sum of these over the bits; every
address a live delivery is counted against is live, so `qdr_check_addr_CT` has
freed none of them; and the counters a live counted delivery would take its
count back from are at least one. -/
theorem balanced_delivery_accounting (width : Nat) (ops : List TrackingOp)
    (bits : ∀ op ∈ ops, op.bitBelow width = true) :
    ∃ core, trackingRun QdrCore.initial ops = some core ∧
      (∀ a addr, core.addrs a = some addr →
        (∀ c, addr.outstandingDeliveries c = core.outstanding a c) ∧
          addr.trackedDeliveries = ∑ c ∈ Finset.range width, addr.outstandingDeliveries c) ∧
      (∀ d dlv a, core.deliveries d = some dlv → dlv.trackingAddr = some a → core.addrs a ≠ none) ∧
      (∀ d dlv a addr, core.deliveries d = some dlv → dlv.trackingAddr = some a → core.addrs a = some addr →
        1 ≤ addr.outstandingDeliveries dlv.trackingAddrBit ∧ 1 ≤ addr.trackedDeliveries) := by
  obtain ⟨core, ran, accounting⟩ := (accounting_initial width).run ops bits
  refine ⟨core, ran, fun a addr live => ⟨accounting.outstanding a addr live, ?_⟩, accounting.live,
    fun d dlv a addr stored counted live => accounting.one_le_counters stored counted live⟩
  rw [accounting.tracked a addr live, accounting.tracked_eq_sum a, Nat.cast_sum]
  exact Finset.sum_congr rfl fun c _ => (accounting.outstanding a addr live c).symm

/-- Two deliveries of address 0 forwarded unsettled to the peer on bit 1, the
address released while they are live, then one settled and the other's link
cleaned up: the address outlives its tracked deliveries and goes with the last. -/
theorem balanced_delivery_accounting_two_peers :
    (∀ op ∈ [TrackingOp.addAddress 0, .forwardBalanced 0 (some 1) true, .forwardBalanced 0 (some 1) true,
        .releaseAddress 0, .deliverySettled 0 true, .linkCleanupUnsettled [1]], op.bitBelow 2 = true) ∧
      ∃ core, trackingRun QdrCore.initial [.addAddress 0, .forwardBalanced 0 (some 1) true,
          .forwardBalanced 0 (some 1) true, .releaseAddress 0, .deliverySettled 0 true,
          .linkCleanupUnsettled [1]] = some core ∧
        (∀ a addr, core.addrs a = some addr →
          (∀ c, addr.outstandingDeliveries c = core.outstanding a c) ∧
            addr.trackedDeliveries = ∑ c ∈ Finset.range 2, addr.outstandingDeliveries c) ∧
        (∀ d dlv a, core.deliveries d = some dlv → dlv.trackingAddr = some a → core.addrs a ≠ none) ∧
        (∀ d dlv a addr, core.deliveries d = some dlv → dlv.trackingAddr = some a → core.addrs a = some addr →
          1 ≤ addr.outstandingDeliveries dlv.trackingAddrBit ∧ 1 ≤ addr.trackedDeliveries) :=
  ⟨by decide, balanced_delivery_accounting 2 _ (by decide)⟩

/-- The address of that run is still there after the settlement and gone after
the cleanup. -/
example :
    ((trackingRun QdrCore.initial [.addAddress 0, .forwardBalanced 0 (some 1) true,
        .forwardBalanced 0 (some 1) true, .releaseAddress 0, .deliverySettled 0 true]).map
          fun core => (core.addrs 0).isSome) = some true ∧
      ((trackingRun QdrCore.initial [.addAddress 0, .forwardBalanced 0 (some 1) true,
        .forwardBalanced 0 (some 1) true, .releaseAddress 0, .deliverySettled 0 true,
        .linkCleanupUnsettled [1]]).map fun core => (core.addrs 0).isSome) = some false := by
  decide

end DispatchRouter.Delivery
