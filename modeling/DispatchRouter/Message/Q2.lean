/-
# Q2 input holdoff

`message.c`: a message whose content holds too many buffers stops its
receiver. The content counts its buffers and, since DISPATCH-2191, the
buffers at its head that parsed header sections protect, which are never
released and so do not count. Receiving a full buffer and extending the
message set `q2_input_holdoff` once the unprotected buffers reach
`QD_QLIMIT_Q2_UPPER`, with holdoff enabled. Releasing buffers clears it once
they fall below `QD_QLIMIT_Q2_LOWER`: `qd_message_send` on each buffer it
frees, `qd_message_free` of a fanout copy and `qd_message_stream_data_release`
only if the content was blocked before their release. Disabling holdoff and
completing the receive clear it too. A call that clears it takes the
registered unblock handler and calls it once it has let go of the lock.

`Q2Sound` says a held-off content is enabled and at or over the lower limit;
every call but the protection of header buffers keeps it (`Q2Sound.step`), so over a run with
no protection a release leaves the flag set only at or over the lower limit
(`Q2Sound.run`). Protection breaks it: it can lower the unprotected count
below the lower limit while the flag is set, and then a released fanout copy
finds the content not blocked before its release and leaves the flag set
below the lower limit (`q2_holdoff_outlives_protection`).
-/

import Mathlib.Tactic.SplitIfs
import DispatchRouter.Math.Mealy

namespace DispatchRouter.Message

open Math

/-! ### The model -/

/-- `QD_QLIMIT_Q2_UPPER`. -/
def qdQlimitQ2Upper : Nat := 256

/-- `QD_QLIMIT_Q2_LOWER`. -/
def qdQlimitQ2Lower : Nat := 128

/-- The fields of `qd_message_content_t` the holdoff reads and writes:
`DEQ_SIZE(buffers)`, `protected_buffers`, `q2_input_holdoff`,
`disable_q2_holdoff`, and whether `q2_unblocker` has a handler. -/
structure Q2Content where
  buffers : Nat
  protectedBuffers : Nat
  q2InputHoldoff : Bool
  disableQ2Holdoff : Bool
  hasUnblocker : Bool
  deriving DecidableEq, Repr

/-- A fresh content: no buffers, holdoff enabled, no handler yet. -/
def Q2Content.initial : Q2Content := ⟨0, 0, false, false, false⟩

/-- The buffers that count for holdoff. -/
def Q2Content.unprotected (content : Q2Content) : Nat := content.buffers - content.protectedBuffers

/-- `_Q2_holdoff_should_block_LH`; none where it asserts. -/
def q2HoldoffShouldBlockLH (content : Q2Content) : Option Bool :=
  if content.protectedBuffers ≤ content.buffers then
    some (!content.disableQ2Holdoff && decide (content.unprotected ≥ qdQlimitQ2Upper))
  else none

/-- `_Q2_holdoff_should_unblock_LH`; none where it asserts. -/
def q2HoldoffShouldUnblockLH (content : Q2Content) : Option Bool :=
  if content.protectedBuffers ≤ content.buffers then
    some (content.disableQ2Holdoff || decide (content.unprotected < qdQlimitQ2Lower))
  else none

/-- The end of every path that clears the flag: cleared if `clear`, and the
handler handed out with it. -/
def clearHoldoff (content : Q2Content) (clear : Bool) : Bool × Q2Content :=
  if clear then (content.hasUnblocker, { content with q2InputHoldoff := false }) else (false, content)

/-- The pending buffer of `qd_message_receive` put on the list once full, the
flag set if it should block and the link's Q2 limit is bounded. -/
def qdMessageReceiveBuffer (content : Q2Content) (unbounded : Bool) : Option (Bool × Q2Content) :=
  let content := { content with buffers := content.buffers + 1 }
  (q2HoldoffShouldBlockLH content).map fun block =>
    (false, if block && !unbounded then { content with q2InputHoldoff := true } else content)

/-- `qd_message_extend` with `count` buffers, and the composes that set the
flag the same way. -/
def qdMessageExtend (content : Q2Content) (count : Nat) : Option (Bool × Q2Content) :=
  let content := { content with buffers := content.buffers + count }
  (q2HoldoffShouldBlockLH content).map fun block =>
    (false, if block then { content with q2InputHoldoff := true } else content)

/-- `message_section_check_LH` protecting a header section: the buffers from
the head to the last one of the section are counted as protected. -/
def messageSectionCheckLH (content : Q2Content) (protectedCount : Nat) : Option (Bool × Q2Content) :=
  if protectedCount ≤ content.buffers then some (false, { content with protectedBuffers := protectedCount })
  else none

/-- A buffer `qd_message_send` frees once sent: the flag cleared if it should
unblock. -/
def qdMessageSendRelease (content : Q2Content) : Option (Bool × Q2Content) :=
  if content.protectedBuffers < content.buffers then
    let content := { content with buffers := content.buffers - 1 }
    (q2HoldoffShouldUnblockLH content).map fun unblock => clearHoldoff content (content.q2InputHoldoff && unblock)
  else none

/-- The release of `qd_message_free` of a fanout copy and of
`qd_message_stream_data_release`: `released` unprotected buffers freed, and
the flag cleared only if the content was blocked before and should unblock
after. -/
def releaseIfWasBlocked (content : Q2Content) (released : Nat) : Option (Bool × Q2Content) :=
  (q2HoldoffShouldUnblockLH content).bind fun wasUnblocked =>
    if released ≤ content.unprotected then
      let content := { content with buffers := content.buffers - released }
      (q2HoldoffShouldUnblockLH content).map fun unblock =>
        clearHoldoff content (content.q2InputHoldoff && !wasUnblocked && unblock)
    else none

/-- `qd_message_free` of a fanout copy, `released` buffers freed. -/
def qdMessageFree (content : Q2Content) (released : Nat) : Option (Bool × Q2Content) :=
  releaseIfWasBlocked content released

/-- `qd_message_stream_data_release`, `released` buffers freed. -/
def qdMessageStreamDataRelease (content : Q2Content) (released : Nat) : Option (Bool × Q2Content) :=
  releaseIfWasBlocked content released

/-- `qd_message_Q2_holdoff_disable`. -/
def qdMessageQ2HoldoffDisable (content : Q2Content) : Bool × Q2Content :=
  if !content.disableQ2Holdoff then
    clearHoldoff { content with disableQ2Holdoff := true } content.q2InputHoldoff
  else (false, content)

/-- `qd_message_set_receive_complete`: the flag cleared and the handler
dropped. -/
def qdMessageSetReceiveComplete (content : Q2Content) : Bool × Q2Content :=
  let cleared := clearHoldoff content content.q2InputHoldoff
  (cleared.1, { cleared.2 with hasUnblocker := false })

/-- `qd_message_set_q2_unblocked_handler`. -/
def qdMessageSetQ2UnblockedHandler (content : Q2Content) : Q2Content :=
  { content with hasUnblocker := true }

/-- A call on a content's buffers and holdoff. -/
inductive Q2Call where
  | receiveBuffer (unbounded : Bool)
  | extend (count : Nat)
  | sectionCheck (protectedCount : Nat)
  | sendRelease
  | free (released : Nat)
  | streamDataRelease (released : Nat)
  | holdoffDisable
  | setReceiveComplete
  | setUnblockedHandler
  deriving DecidableEq, Repr

/-- A call, and whether it hands the unblock handler to its caller; none
where it asserts. -/
def q2Step (content : Q2Content) : Q2Call → Option (Bool × Q2Content)
  | .receiveBuffer unbounded => qdMessageReceiveBuffer content unbounded
  | .extend count => qdMessageExtend content count
  | .sectionCheck protectedCount => messageSectionCheckLH content protectedCount
  | .sendRelease => qdMessageSendRelease content
  | .free released => qdMessageFree content released
  | .streamDataRelease released => qdMessageStreamDataRelease content released
  | .holdoffDisable => some (qdMessageQ2HoldoffDisable content)
  | .setReceiveComplete => some (qdMessageSetReceiveComplete content)
  | .setUnblockedHandler => some (false, qdMessageSetQ2UnblockedHandler content)

/-! ### What each call does to the flag -/

/-- The calls that do not assert: a protection within the buffers, and
releases of unprotected buffers only. -/
def Q2Call.Allowed (content : Q2Content) : Q2Call → Prop
  | .sectionCheck protectedCount => protectedCount ≤ content.buffers
  | .sendRelease => content.protectedBuffers < content.buffers
  | .free released => released ≤ content.unprotected
  | .streamDataRelease released => released ≤ content.unprotected
  | _ => True

instance Q2Call.decidableAllowed (content : Q2Content) : (call : Q2Call) → Decidable (call.Allowed content)
  | .sectionCheck protectedCount => inferInstanceAs (Decidable (protectedCount ≤ content.buffers))
  | .sendRelease => inferInstanceAs (Decidable (content.protectedBuffers < content.buffers))
  | .free released => inferInstanceAs (Decidable (released ≤ content.unprotected))
  | .streamDataRelease released => inferInstanceAs (Decidable (released ≤ content.unprotected))
  | .receiveBuffer _ => inferInstanceAs (Decidable True)
  | .extend _ => inferInstanceAs (Decidable True)
  | .holdoffDisable => inferInstanceAs (Decidable True)
  | .setReceiveComplete => inferInstanceAs (Decidable True)
  | .setUnblockedHandler => inferInstanceAs (Decidable True)

/-- What every call keeps: the protected buffers are among the buffers, and a
held-off content has holdoff enabled. -/
structure Q2Counted (content : Q2Content) : Prop where
  protected_le : content.protectedBuffers ≤ content.buffers
  enabled : content.q2InputHoldoff = true → content.disableQ2Holdoff = false

/-- What every call but a protection keeps besides: a held-off content is at
or over the lower limit. -/
structure Q2Sound (content : Q2Content) : Prop extends Q2Counted content where
  above_lower : content.q2InputHoldoff = true → qdQlimitQ2Lower ≤ content.unprotected

theorem q2HoldoffShouldBlockLH_eq (content : Q2Content) (le : content.protectedBuffers ≤ content.buffers) :
    q2HoldoffShouldBlockLH content =
      some (!content.disableQ2Holdoff && decide (content.unprotected ≥ qdQlimitQ2Upper)) := by
  simp [q2HoldoffShouldBlockLH, le]

theorem q2HoldoffShouldUnblockLH_eq (content : Q2Content) (le : content.protectedBuffers ≤ content.buffers) :
    q2HoldoffShouldUnblockLH content =
      some (content.disableQ2Holdoff || decide (content.unprotected < qdQlimitQ2Lower)) := by
  simp [q2HoldoffShouldUnblockLH, le]

@[simp] theorem clearHoldoff_holdoff (content : Q2Content) (clear : Bool) :
    (clearHoldoff content clear).2.q2InputHoldoff = (content.q2InputHoldoff && !clear) := by
  cases clear <;> simp [clearHoldoff]

@[simp] theorem clearHoldoff_handed (content : Q2Content) (clear : Bool) :
    (clearHoldoff content clear).1 = (clear && content.hasUnblocker) := by
  cases clear <;> simp [clearHoldoff]

/-- Clearing touches only the flag. -/
theorem clearHoldoff_counts (content : Q2Content) (clear : Bool) :
    (clearHoldoff content clear).2.buffers = content.buffers ∧
      (clearHoldoff content clear).2.protectedBuffers = content.protectedBuffers ∧
      (clearHoldoff content clear).2.disableQ2Holdoff = content.disableQ2Holdoff ∧
      (clearHoldoff content clear).2.hasUnblocker = content.hasUnblocker := by
  cases clear <;> simp [clearHoldoff]

/-! ### Each call in closed form -/

section Calls

variable {content : Q2Content}

/-- A received buffer sets the flag if the count it leaves should block on a
bounded link. -/
theorem qdMessageReceiveBuffer_eq (le : content.protectedBuffers ≤ content.buffers) (unbounded : Bool) :
    qdMessageReceiveBuffer content unbounded =
      some (false, { content with
        buffers := content.buffers + 1
        q2InputHoldoff := content.q2InputHoldoff || (!content.disableQ2Holdoff &&
          decide (qdQlimitQ2Upper ≤ content.buffers + 1 - content.protectedBuffers) && !unbounded) }) := by
  have grown : content.protectedBuffers ≤ content.buffers + 1 := by omega
  simp only [qdMessageReceiveBuffer, q2HoldoffShouldBlockLH_eq { content with buffers := content.buffers + 1 } grown, Q2Content.unprotected, Option.map_some]
  split_ifs with blocks <;> cases holdoff : content.q2InputHoldoff <;> simp_all

/-- An extension sets the flag if the count it leaves should block. -/
theorem qdMessageExtend_eq (le : content.protectedBuffers ≤ content.buffers) (count : Nat) :
    qdMessageExtend content count =
      some (false, { content with
        buffers := content.buffers + count
        q2InputHoldoff := content.q2InputHoldoff || (!content.disableQ2Holdoff &&
          decide (qdQlimitQ2Upper ≤ content.buffers + count - content.protectedBuffers)) }) := by
  have grown : content.protectedBuffers ≤ content.buffers + count := by omega
  simp only [qdMessageExtend, q2HoldoffShouldBlockLH_eq { content with buffers := content.buffers + count } grown,
    Q2Content.unprotected, Option.map_some]
  split_ifs with blocks <;> cases holdoff : content.q2InputHoldoff <;> simp_all

/-- A buffer freed by a send clears the flag if the count it leaves should
unblock. -/
theorem qdMessageSendRelease_eq (unprotectedLeft : content.protectedBuffers < content.buffers) :
    qdMessageSendRelease content =
      let clear := content.q2InputHoldoff && (content.disableQ2Holdoff ||
        decide (content.buffers - 1 - content.protectedBuffers < qdQlimitQ2Lower))
      some ((clearHoldoff { content with buffers := content.buffers - 1 } clear).1,
        (clearHoldoff { content with buffers := content.buffers - 1 } clear).2) := by
  have shrunk : content.protectedBuffers ≤ content.buffers - 1 := by omega
  rw [qdMessageSendRelease, if_pos unprotectedLeft]
  simp only [q2HoldoffShouldUnblockLH_eq { content with buffers := content.buffers - 1 } shrunk, Option.map_some]
  rfl

/-- A release of a fanout copy or of stream data clears the flag only if the
content was blocked before it and the count it leaves should unblock. -/
theorem releaseIfWasBlocked_eq (le : content.protectedBuffers ≤ content.buffers) {released : Nat}
    (withinUnprotected : released ≤ content.unprotected) :
    releaseIfWasBlocked content released =
      let clear := content.q2InputHoldoff &&
        !(content.disableQ2Holdoff || decide (content.unprotected < qdQlimitQ2Lower)) &&
        (content.disableQ2Holdoff || decide (content.buffers - released - content.protectedBuffers < qdQlimitQ2Lower))
      some ((clearHoldoff { content with buffers := content.buffers - released } clear).1,
        (clearHoldoff { content with buffers := content.buffers - released } clear).2) := by
  have shrunk : content.protectedBuffers ≤ content.buffers - released := by
    unfold Q2Content.unprotected at withinUnprotected
    omega
  rw [releaseIfWasBlocked, q2HoldoffShouldUnblockLH_eq content le, Option.bind_some, if_pos withinUnprotected]
  simp only [q2HoldoffShouldUnblockLH_eq { content with buffers := content.buffers - released } shrunk,
    Option.map_some]
  rfl

end Calls

/-- A call that does not assert was allowed. -/
theorem Q2Counted.allowed_of_step {content : Q2Content} (counted : Q2Counted content) {call : Q2Call}
    {result : Bool × Q2Content} (stepped : q2Step content call = some result) : call.Allowed content := by
  have le := counted.protected_le
  cases call with
  | sectionCheck protectedCount =>
      by_cases within : protectedCount ≤ content.buffers
      · exact within
      · simp [q2Step, messageSectionCheckLH, within] at stepped
  | sendRelease =>
      by_cases left : content.protectedBuffers < content.buffers
      · exact left
      · simp [q2Step, qdMessageSendRelease, left] at stepped
  | free released | streamDataRelease released =>
      by_cases within : released ≤ content.unprotected
      · exact within
      · simp [q2Step, qdMessageFree, qdMessageStreamDataRelease, releaseIfWasBlocked,
          q2HoldoffShouldUnblockLH_eq content le, within] at stepped
  | _ => trivial

/-! ### What a run keeps -/

/-- Every allowed call goes through and keeps `Q2Counted`. -/
theorem Q2Counted.step {content : Q2Content} (counted : Q2Counted content) {call : Q2Call}
    (allowed : call.Allowed content) :
    ∃ handed next, q2Step content call = some (handed, next) ∧ Q2Counted next := by
  have le := counted.protected_le
  cases call with
  | receiveBuffer unbounded =>
      refine ⟨_, _, qdMessageReceiveBuffer_eq le unbounded, ⟨by simp only; omega, fun isSet => ?_⟩⟩
      simp only [Bool.or_eq_true, Bool.and_eq_true, Bool.not_eq_true'] at isSet
      rcases isSet with wasSet | ⟨⟨enabled, -⟩, -⟩
      · exact counted.enabled wasSet
      · exact enabled
  | extend count =>
      refine ⟨_, _, qdMessageExtend_eq le count, ⟨by simp only; omega, fun isSet => ?_⟩⟩
      simp only [Bool.or_eq_true, Bool.and_eq_true, Bool.not_eq_true'] at isSet
      rcases isSet with wasSet | ⟨enabled, -⟩
      · exact counted.enabled wasSet
      · exact enabled
  | sectionCheck protectedCount =>
      have within : protectedCount ≤ content.buffers := allowed
      exact ⟨false, { content with protectedBuffers := protectedCount },
        by simp [q2Step, messageSectionCheckLH, within], ⟨within, counted.enabled⟩⟩
  | sendRelease =>
      have left : content.protectedBuffers < content.buffers := allowed
      refine ⟨_, _, qdMessageSendRelease_eq left, ⟨?_, fun isSet => ?_⟩⟩
      · rw [(clearHoldoff_counts _ _).1, (clearHoldoff_counts _ _).2.1]
        simp only
        omega
      · rw [(clearHoldoff_counts _ _).2.2.1]
        simp only [clearHoldoff_holdoff, Bool.and_eq_true] at isSet
        exact counted.enabled isSet.1
  | free released | streamDataRelease released =>
      have within : released ≤ content.buffers - content.protectedBuffers := allowed
      refine ⟨_, _, releaseIfWasBlocked_eq le allowed, ⟨?_, fun isSet => ?_⟩⟩
      · rw [(clearHoldoff_counts _ _).1, (clearHoldoff_counts _ _).2.1]
        simp only
        omega
      · rw [(clearHoldoff_counts _ _).2.2.1]
        simp only [clearHoldoff_holdoff, Bool.and_eq_true] at isSet
        exact counted.enabled isSet.1
  | holdoffDisable =>
      refine ⟨(qdMessageQ2HoldoffDisable content).1, (qdMessageQ2HoldoffDisable content).2, rfl, ?_⟩
      unfold qdMessageQ2HoldoffDisable
      split_ifs with enabled
      · -- disabling clears a set flag
        refine ⟨by rw [(clearHoldoff_counts _ _).1, (clearHoldoff_counts _ _).2.1]; exact le, fun isSet => ?_⟩
        simp at isSet
      · exact counted
  | setReceiveComplete =>
      refine ⟨(qdMessageSetReceiveComplete content).1, (qdMessageSetReceiveComplete content).2, rfl,
        ⟨?_, fun isSet => ?_⟩⟩
      · simp only [qdMessageSetReceiveComplete]
        rw [(clearHoldoff_counts _ _).1, (clearHoldoff_counts _ _).2.1]
        exact le
      · simp [qdMessageSetReceiveComplete] at isSet
  | setUnblockedHandler => exact ⟨_, _, rfl, ⟨le, counted.enabled⟩⟩

/-- Every allowed call but a protection goes through and keeps `Q2Sound`: a
flag that stays set stays at or over the lower limit. -/
theorem Q2Sound.step {content : Q2Content} (sound : Q2Sound content) {call : Q2Call}
    (allowed : call.Allowed content) (notProtection : ∀ protectedCount, call ≠ .sectionCheck protectedCount) :
    ∃ handed next, q2Step content call = some (handed, next) ∧ Q2Sound next := by
  obtain ⟨handed, next, stepped, counted⟩ := sound.toQ2Counted.step allowed
  refine ⟨handed, next, stepped, ⟨counted, fun isSet => ?_⟩⟩
  have le := sound.protected_le
  cases call with
  | receiveBuffer unbounded =>
      rw [q2Step, qdMessageReceiveBuffer_eq le, Option.some.injEq, Prod.mk.injEq] at stepped
      obtain ⟨-, rfl⟩ := stepped
      -- a flag set before stays over the lower limit, a flag set now is over the upper
      simp only [Bool.or_eq_true, Bool.and_eq_true, Bool.not_eq_true', decide_eq_true_eq] at isSet
      have := sound.above_lower
      unfold Q2Content.unprotected at this ⊢
      simp only [qdQlimitQ2Upper, qdQlimitQ2Lower] at isSet this ⊢
      rcases isSet with wasSet | ⟨⟨-, atUpper⟩, -⟩
      · have := this wasSet
        omega
      · omega
  | extend count =>
      rw [q2Step, qdMessageExtend_eq le, Option.some.injEq, Prod.mk.injEq] at stepped
      obtain ⟨-, rfl⟩ := stepped
      simp only [Bool.or_eq_true, Bool.and_eq_true, Bool.not_eq_true', decide_eq_true_eq] at isSet
      have := sound.above_lower
      unfold Q2Content.unprotected at this ⊢
      simp only [qdQlimitQ2Upper, qdQlimitQ2Lower] at isSet this ⊢
      rcases isSet with wasSet | ⟨-, atUpper⟩
      · have := this wasSet
        omega
      · omega
  | sectionCheck protectedCount => exact absurd rfl (notProtection protectedCount)
  | sendRelease =>
      -- the flag stays set only if the count left should not unblock
      rw [q2Step, qdMessageSendRelease_eq allowed, Option.some.injEq, Prod.mk.injEq] at stepped
      obtain ⟨-, rfl⟩ := stepped
      simp only [clearHoldoff_holdoff, Bool.and_eq_true, Bool.not_eq_true', Bool.and_eq_false_iff,
        Bool.or_eq_false_iff, decide_eq_false_iff_not, Nat.not_lt] at isSet
      rw [Q2Content.unprotected, (clearHoldoff_counts _ _).1, (clearHoldoff_counts _ _).2.1]
      dsimp only
      rcases isSet with ⟨wasSet, notSet | ⟨-, atLeast⟩⟩
      · simp [wasSet] at notSet
      · exact atLeast
  | free released | streamDataRelease released =>
      -- a set flag was blocked before: it stays set only if the count left
      -- should not unblock
      simp only [q2Step, qdMessageFree, qdMessageStreamDataRelease] at stepped
      rw [releaseIfWasBlocked_eq le allowed, Option.some.injEq, Prod.mk.injEq] at stepped
      obtain ⟨-, rfl⟩ := stepped
      simp only [clearHoldoff_holdoff, Bool.and_eq_true, Bool.not_eq_true', Bool.and_eq_false_iff,
        Bool.or_eq_false_iff, decide_eq_false_iff_not, Nat.not_lt] at isSet
      rw [Q2Content.unprotected, (clearHoldoff_counts _ _).1, (clearHoldoff_counts _ _).2.1]
      dsimp only
      obtain ⟨wasSet, stays⟩ := isSet
      have enabled := sound.enabled wasSet
      have above := sound.above_lower wasSet
      unfold Q2Content.unprotected at above
      rcases stays with (notSet | wasUnblocked) | ⟨-, atLeast⟩
      · simp [wasSet] at notSet
      · simp only [enabled, Bool.false_or, Q2Content.unprotected, Bool.not_eq_false'] at wasUnblocked
        exact absurd (of_decide_eq_true wasUnblocked) (Nat.not_lt.mpr above)
      · exact atLeast
  | holdoffDisable =>
      simp only [q2Step, qdMessageQ2HoldoffDisable, Option.some.injEq] at stepped
      have nextIs : next = _ := (congrArg Prod.snd stepped).symm
      subst nextIs
      split_ifs at isSet ⊢ with enabled
      · simp at isSet
      · exact sound.above_lower isSet
  | setReceiveComplete =>
      simp only [q2Step, qdMessageSetReceiveComplete, Option.some.injEq, Prod.mk.injEq] at stepped
      obtain ⟨-, rfl⟩ := stepped
      simp at isSet
  | setUnblockedHandler =>
      simp only [q2Step, qdMessageSetQ2UnblockedHandler, Option.some.injEq, Prod.mk.injEq] at stepped
      obtain ⟨-, rfl⟩ := stepped
      exact sound.above_lower isSet

theorem q2Sound_initial : Q2Sound Q2Content.initial where
  protected_le := Nat.le_refl 0
  enabled := by simp [Q2Content.initial]
  above_lower := by simp [Q2Content.initial]

/-- Over every run of allowed calls no call asserts, and a set flag always has
holdoff enabled. -/
theorem Q2Counted.run {content : Q2Content} (counted : Q2Counted content) (calls : List Q2Call)
    (allowed : Mealy.AllowedRun q2Step (fun content call => call.Allowed content) content calls) :
    ∃ handed final, Mealy.runPartial q2Step content calls = some (handed, final) ∧ Q2Counted final :=
  Mealy.runPartial_invariant q2Step (fun _ _ counted allowed => counted.step allowed) calls counted allowed

/-- Over every run of allowed calls with no protection of header buffers, a
set flag is always at or over the lower limit: a release never leaves the
receiver held off below it. -/
theorem Q2Sound.run {content : Q2Content} (sound : Q2Sound content) (calls : List Q2Call)
    (allowed : Mealy.AllowedRun q2Step
      (fun content call => call.Allowed content ∧ ∀ protectedCount, call ≠ .sectionCheck protectedCount) content calls) :
    ∃ handed final, Mealy.runPartial q2Step content calls = some (handed, final) ∧ Q2Sound final :=
  Mealy.runPartial_invariant q2Step (fun _ _ sound allowed => sound.step allowed.1 allowed.2) calls sound allowed

/-- A content that receives 256 buffers is held off; a header section then
protects 200 of them, which leaves 56 that count. A fanout copy freed with one
buffer finds the content not blocked before its release, and leaves the flag
set with 55 buffers counted, below the lower limit. -/
theorem q2_holdoff_outlives_protection :
    (Mealy.runPartial q2Step Q2Content.initial
      (.setUnblockedHandler :: List.replicate 256 (.receiveBuffer false) ++ [.sectionCheck 200, .free 1])).map
        (fun ran => (ran.1.getLast?, ran.2.q2InputHoldoff, ran.2.unprotected)) =
      some (some false, true, 55) := by
  decide +kernel

/-- From a fresh content, over every run of allowed calls that protects no
header buffers, no call asserts, and a set flag has holdoff enabled and the
unprotected buffers at or over the lower limit. -/
theorem q2_holdoff_sound_without_protection (calls : List Q2Call)
    (allowed : Mealy.AllowedRun q2Step (fun content call => call.Allowed content) Q2Content.initial calls)
    (unprotected : ∀ call ∈ calls, ∀ protectedCount, call ≠ .sectionCheck protectedCount) :
    ∃ handed final, Mealy.runPartial q2Step Q2Content.initial calls = some (handed, final) ∧
      (final.q2InputHoldoff = true → final.disableQ2Holdoff = false ∧ qdQlimitQ2Lower ≤ final.unprotected) := by
  obtain ⟨handed, final, ran, sound⟩ := q2Sound_initial.run calls (allowed.and_forall calls unprotected)
  exact ⟨handed, final, ran, fun held => ⟨sound.enabled held, sound.above_lower held⟩⟩

/-- A handler is set, an extend of 300 buffers holds the receiver off, and a
fanout copy freed with 200 of them lets it go. -/
theorem q2_holdoff_sound_extend_free :
    Mealy.AllowedRun q2Step (fun content call => call.Allowed content) Q2Content.initial
        [.setUnblockedHandler, .extend 300, .free 200] ∧
      (∀ call ∈ [Q2Call.setUnblockedHandler, .extend 300, .free 200], ∀ protectedCount,
        call ≠ .sectionCheck protectedCount) ∧
      ∃ handed final, Mealy.runPartial q2Step Q2Content.initial [.setUnblockedHandler, .extend 300, .free 200] =
          some (handed, final) ∧
        (final.q2InputHoldoff = true → final.disableQ2Holdoff = false ∧ qdQlimitQ2Lower ≤ final.unprotected) :=
  have allowed := Mealy.allowedRun_of_allowedAlong _ (by decide +kernel)
  have unprotected : ∀ call ∈ [Q2Call.setUnblockedHandler, .extend 300, .free 200], ∀ protectedCount,
      call ≠ .sectionCheck protectedCount := by simp
  ⟨allowed, unprotected, q2_holdoff_sound_without_protection _ allowed unprotected⟩

end DispatchRouter.Message
