/-
# The core's timers

`core_timer.c`: the core keeps its scheduled timers in one list, each with the
number of ticks after the timer before it (`delta_time_seconds`). A tick fires
the timers at the head of the list whose delta is zero, calling each one's
handler, and then takes one tick off the next timer. Before it calls a handler
the loop saves the timer after the one it fires, and it goes on from the saved
timer whatever the handler did to the list.

A handler that reschedules the saved timer moves it away from the head: the
tick is then taken off the rescheduled timer, and the timer left at the head
fires a tick late.
-/

import Mathlib.Logic.Function.Basic
import DispatchRouter.Math.Mealy
import DispatchRouter.Math.Deq

namespace DispatchRouter.Router

open Math

variable {ι : Type} [DecidableEq ι]

/-- The scheduling fields of the core's timers, `delta_time_seconds` and
`scheduled` of each, and the list `core->scheduled_timers`. -/
structure CoreTimers (ι : Type) where
  scheduledTimers : List ι
  deltaTimeSeconds : ι → UInt32
  scheduled : ι → Bool

/-- A call on the core's timers that a handler may make. -/
inductive CoreTimerCall (ι : Type) where
  | schedule (timer : ι) (delay : UInt32)
  | cancel (timer : ι)
  | free (timer : ι)
  deriving DecidableEq, Repr

/-- `qdr_core_timer_cancel_CT`: a scheduled timer comes off the list, and the
timer after it takes over its delta. -/
def qdrCoreTimerCancelCT (timers : CoreTimers ι) (timer : ι) : CoreTimers ι :=
  if timers.scheduled timer then
    let deltaTimeSeconds :=
      match deqNext timers.scheduledTimers timer with
      | some next =>
          Function.update timers.deltaTimeSeconds next
            (timers.deltaTimeSeconds next + timers.deltaTimeSeconds timer)
      | none => timers.deltaTimeSeconds
    { scheduledTimers := timers.scheduledTimers.erase timer
      deltaTimeSeconds
      scheduled := Function.update timers.scheduled timer false }
  else timers

/-- The loop of `qdr_core_timer_schedule_CT` from `ptr` on, `timeBefore` the
ticks of the timers passed: a timer whose delta keeps the sum within the delay
is passed; the new timer goes before the first other, which keeps what is left
of its delta, or at the end. -/
def scheduleLoop (timer : ι) (delay : UInt32) (deltas : ι → UInt32) :
    UInt32 → List ι → List ι × (ι → UInt32)
  | timeBefore, [] => ([timer], Function.update deltas timer (delay - timeBefore))
  | timeBefore, ptr :: rest =>
      if timeBefore + deltas ptr ≤ delay then
        let (after, deltas) := scheduleLoop timer delay deltas (timeBefore + deltas ptr) rest
        (ptr :: after, deltas)
      else
        let deltas := Function.update deltas timer (delay - timeBefore)
        (timer :: ptr :: rest, Function.update deltas ptr (deltas ptr - deltas timer))

/-- `qdr_core_timer_schedule_CT`. -/
def qdrCoreTimerScheduleCT (timers : CoreTimers ι) (timer : ι) (delay : UInt32) : CoreTimers ι :=
  let timers := if timers.scheduled timer then qdrCoreTimerCancelCT timers timer else timers
  let (scheduledTimers, deltaTimeSeconds) := scheduleLoop timer delay timers.deltaTimeSeconds 0 timers.scheduledTimers
  { scheduledTimers, deltaTimeSeconds, scheduled := Function.update timers.scheduled timer true }

/-- `qdr_core_timer_free_CT`: the timer cancelled; its memory is not
modelled. -/
def qdrCoreTimerFreeCT (timers : CoreTimers ι) (timer : ι) : CoreTimers ι :=
  qdrCoreTimerCancelCT timers timer

/-- A call made. -/
def CoreTimerCall.apply (timers : CoreTimers ι) : CoreTimerCall ι → CoreTimers ι
  | .schedule timer delay => qdrCoreTimerScheduleCT timers timer delay
  | .cancel timer => qdrCoreTimerCancelCT timers timer
  | .free timer => qdrCoreTimerFreeCT timers timer

/-- The loop of `qdr_process_tick_CT` from `timer` on: a timer with delta zero
must be scheduled (the assertion), comes off the list after the timer after it
is saved, and its handler makes its calls; the loop goes on from the saved
timer. The first timer with a delta loses one tick. Each round takes one unit
of `fuel`. The timers after the tick and those fired, in order. -/
def tickLoop (handler : ι → CoreTimers ι → List (CoreTimerCall ι)) :
    Nat → Option ι → CoreTimers ι → Option (CoreTimers ι × List ι)
  | 0, _, _ => none
  | _ + 1, none, timers => some (timers, [])
  | fuel + 1, some timer, timers =>
      if timers.deltaTimeSeconds timer = 0 then
        if timers.scheduled timer then
          let timerNext := deqNext timers.scheduledTimers timer
          let timers := { timers with
            scheduled := Function.update timers.scheduled timer false
            scheduledTimers := timers.scheduledTimers.erase timer }
          let timers := (handler timer timers).foldl CoreTimerCall.apply timers
          (tickLoop handler fuel timerNext timers).map fun ticked => (ticked.1, timer :: ticked.2)
        else none
      else
        some ({ timers with
          deltaTimeSeconds := Function.update timers.deltaTimeSeconds timer (timers.deltaTimeSeconds timer - 1) },
          [])

/-- `qdr_process_tick_CT`: a discarded tick does nothing. -/
def qdrProcessTickCT (handler : ι → CoreTimers ι → List (CoreTimerCall ι)) (fuel : Nat) (timers : CoreTimers ι)
    (discard : Bool) : Option (CoreTimers ι × List ι) :=
  if discard then some (timers, [])
  else tickLoop handler fuel timers.scheduledTimers.head? timers

/-- What the core thread does with its timers: a call, or a tick. -/
inductive CoreTimerInput (ι : Type) where
  | call (call : CoreTimerCall ι)
  | tick
  deriving DecidableEq, Repr

/-- One input to the core's timers, and the timers it fires. -/
def coreTimerStep (handler : ι → CoreTimers ι → List (CoreTimerCall ι)) (fuel : Nat) (timers : CoreTimers ι) :
    CoreTimerInput ι → Option (List ι × CoreTimers ι)
  | .call call => some ([], call.apply timers)
  | .tick => (qdrProcessTickCT handler fuel timers false).map fun ticked => (ticked.2, ticked.1)

/-- No timer scheduled. -/
def CoreTimers.initial : CoreTimers ι := ⟨[], fun _ => 0, fun _ => false⟩

/-! ### The saved successor -/

/-- Timers `0`, `1` and `2` scheduled with delays 0, 0 and 4, the handler of
`0` rescheduling `1` with delay 10: the first tick fires `0` and takes its tick
off the moved `1`, so `2`, due on the fifth tick, fires on the sixth. With a
handler of `0` that schedules `3` with delay 0 instead, `3` fires on the tick
that ran the handler. -/
theorem tick_follows_moved_successor :
    (Mealy.runPartial (coreTimerStep (fun timer _ => if timer = 0 then [.schedule 1 10] else []) 8)
        (CoreTimers.initial : CoreTimers Nat)
        [.call (.schedule 0 0), .call (.schedule 1 0), .call (.schedule 2 4),
          .tick, .tick, .tick, .tick, .tick, .tick]).map (·.1) =
      some [[], [], [], [0], [], [], [], [], [2]] ∧
    (Mealy.runPartial (coreTimerStep (fun timer _ => if timer = 0 then [.schedule 3 0] else []) 8)
        (CoreTimers.initial : CoreTimers Nat)
        [.call (.schedule 0 0), .call (.schedule 1 0), .tick]).map (·.1) =
      some [[], [], [0, 1, 3]] :=
  ⟨by decide, by decide⟩

end DispatchRouter.Router
