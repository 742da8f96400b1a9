/-
# The server's timers

`timer.c`: the scheduled timers are one list, each timer with the time after
the timer before it (`delta_time`), the first measured from `time_base`. Every
schedule and every visit first brings the list to the clock: the time passed
since `time_base` is taken off the first timers, an overdue timer keeping
zero. A new timer goes before the first timer its delay does not pass, so
before the timers due with it. A visit fires the timers at the head whose delta
is zero, the head read again after each callback, and asks the server for a
timeout of the delta left at the head.

A callback that schedules a timer with no delay puts it at the head, before
the overdue timers still waiting: it fires in the same visit, before timers
whose deadlines were earlier.
-/

import DispatchRouter.Router.CoreTimer

namespace DispatchRouter.Server

open Math Router

variable {ι : Type} [DecidableEq ι]

/-- `qd_timer_state_t`. -/
inductive QdTimerState where
  | idle
  | scheduled
  | running
  | blocked
  | deleted
  deriving DecidableEq, Repr

/-- The scheduling state of `timer.c`: `scheduled_timers`, the `delta_time`
and `state` of each timer, `time_base`, and whether a visit is running
callbacks (`callback_thread` set, on the one thread that calls). -/
structure ServerTimers (ι : Type) where
  scheduledTimers : List ι
  deltaTime : ι → Int
  state : ι → QdTimerState
  timeBase : Int
  callbackThread : Bool

/-- `timer_cancel_LH`: a scheduled timer comes off the list, the timer after it
taking over its delta; true if it was on the list. -/
def timerCancelLH (timers : ServerTimers ι) (timer : ι) : ServerTimers ι × Bool :=
  if timers.state timer = .scheduled then
    let deltaTime :=
      match deqNext timers.scheduledTimers timer with
      | some next => Function.update timers.deltaTime next (timers.deltaTime next + timers.deltaTime timer)
      | none => timers.deltaTime
    ({ timers with
        scheduledTimers := timers.scheduledTimers.erase timer
        deltaTime
        state := Function.update timers.state timer .idle }, true)
  else (timers, false)

/-- The loop of `timer_adjust_now_LH`: `delta` taken off the timers from the
head on, each overdue timer left at zero. -/
def adjustLoop (deltaTime : ι → Int) : Int → List ι → ι → Int
  | _, [] => deltaTime
  | delta, timer :: rest =>
      if delta > 0 then
        if deltaTime timer ≥ delta then Function.update deltaTime timer (deltaTime timer - delta)
        else adjustLoop (Function.update deltaTime timer 0) (delta - deltaTime timer) rest
      else deltaTime

/-- `timer_adjust_now_LH`: the list brought to the clock `now`. A `time_base` of
zero is never adjusted from. -/
def timerAdjustNowLH (timers : ServerTimers ι) (now : Int) : ServerTimers ι :=
  let timers :=
    if timers.timeBase ≠ 0 ∧ now > timers.timeBase then
      { timers with deltaTime := adjustLoop timers.deltaTime (now - timers.timeBase) timers.scheduledTimers }
    else timers
  { timers with timeBase := now }

/-- The walk of `qd_timer_schedule` from `ptr` on, `timeBefore` the time of the
timers passed: a timer is passed while the sum stays below the duration; the
new timer goes before the first other, which keeps what is left of its delta,
or at the end. -/
def scheduleWalk (timer : ι) (duration : Int) (deltaTime : ι → Int) :
    Int → List ι → List ι × (ι → Int)
  | timeBefore, [] => ([timer], Function.update deltaTime timer (duration - timeBefore))
  | timeBefore, ptr :: rest =>
      if timeBefore + deltaTime ptr < duration then
        let (after, deltaTime) := scheduleWalk timer duration deltaTime (timeBefore + deltaTime ptr) rest
        (ptr :: after, deltaTime)
      else
        let deltaTime := Function.update deltaTime timer (duration - timeBefore)
        (timer :: ptr :: rest, Function.update deltaTime ptr (deltaTime ptr - deltaTime timer))

/-- The timeout a call asks of the server: the delta of the head, unless a
visit is running callbacks. -/
def serverTimeout (timers : ServerTimers ι) : Option Int :=
  if timers.callbackThread then none else timers.scheduledTimers.head?.map timers.deltaTime

/-- `qd_timer_schedule` at the clock `now`; none where it asserts, on a
deleted timer. -/
def qdTimerSchedule (timers : ServerTimers ι) (now : Int) (timer : ι) (duration : Int) :
    Option (ServerTimers ι × Option Int) :=
  if timers.state timer = .deleted then none
  else
    let timers := timerAdjustNowLH (timerCancelLH timers timer).1 now
    let (scheduledTimers, deltaTime) := scheduleWalk timer duration timers.deltaTime 0 timers.scheduledTimers
    let timers := { timers with
      scheduledTimers, deltaTime, state := Function.update timers.state timer .scheduled }
    some (timers, serverTimeout timers)

/-- `qd_timer_cancel`; none where it asserts, on the timer whose callback is
running, which only its own thread can cancel here. -/
def qdTimerCancel (timers : ServerTimers ι) (timer : ι) : Option (ServerTimers ι) :=
  if timers.state timer = .running then none
  else
    let timers := (timerCancelLH timers timer).1
    some { timers with state := Function.update timers.state timer .idle }

/-- `qd_timer_free`; none where it asserts, on a timer freed twice. A running
timer is freed from its own callback, which does not wait. -/
def qdTimerFree (timers : ServerTimers ι) (timer : ι) : Option (ServerTimers ι) :=
  if timers.state timer = .deleted then none
  else
    let timers := (timerCancelLH timers timer).1
    some { timers with state := Function.update timers.state timer .deleted }

/-- A call on the timers. -/
inductive ServerTimerCall (ι : Type) where
  | schedule (timer : ι) (duration : Int)
  | cancel (timer : ι)
  | free (timer : ι)
  deriving DecidableEq, Repr

/-- A call made at the clock `now`, and the timeout it asks for. -/
def ServerTimerCall.apply (now : Int) (timers : ServerTimers ι) :
    ServerTimerCall ι → Option (ServerTimers ι × Option Int)
  | .schedule timer duration => qdTimerSchedule timers now timer duration
  | .cancel timer => (qdTimerCancel timers timer).map fun timers => (timers, none)
  | .free timer => (qdTimerFree timers timer).map fun timers => (timers, none)

/-- The loop of `qd_timer_visit`: while the head is due it comes off the list,
runs, its callback makes its calls at the same clock, and a timer still
running goes idle. Each round takes one unit of `fuel`. The timers after the
loop and those fired, in order. -/
def visitLoop (callback : ι → ServerTimers ι → List (ServerTimerCall ι)) (now : Int) :
    Nat → ServerTimers ι → Option (ServerTimers ι × List ι)
  | 0, _ => none
  | fuel + 1, timers =>
      match timers.scheduledTimers.head? with
      | none => some (timers, [])
      | some timer =>
          if timers.deltaTime timer = 0 then
            if timers.state timer = .scheduled then
              let timers := (timerCancelLH timers timer).1
              let timers := { timers with state := Function.update timers.state timer .running }
              let called := (callback timer timers).foldlM
                (fun timers (call : ServerTimerCall ι) => (call.apply now timers).map (·.1)) timers
              called.bind fun timers =>
                let timers :=
                  if timers.state timer = .running then
                    { timers with state := Function.update timers.state timer .idle }
                  else timers
                (visitLoop callback now fuel timers).map fun visited => (visited.1, timer :: visited.2)
            else none
          else some (timers, [])

/-- `qd_timer_visit` at the clock `now`: the timers, those fired and the
timeout asked for. -/
def qdTimerVisit (callback : ι → ServerTimers ι → List (ServerTimerCall ι)) (fuel : Nat) (now : Int)
    (timers : ServerTimers ι) : Option (ServerTimers ι × List ι × Option Int) :=
  let timers := timerAdjustNowLH { timers with callbackThread := true } now
  (visitLoop callback now fuel timers).map fun visited =>
    let timers := { visited.1 with callbackThread := false }
    (timers, visited.2, serverTimeout timers)

/-- What a thread does with the timers, at the clock it reads: a call, or a
visit. -/
inductive ServerTimerInput (ι : Type) where
  | call (now : Int) (call : ServerTimerCall ι)
  | visit (now : Int)
  deriving DecidableEq, Repr

/-- One input, with the timers it fires and the timeout it asks for. -/
def serverTimerStep (callback : ι → ServerTimers ι → List (ServerTimerCall ι)) (fuel : Nat)
    (timers : ServerTimers ι) : ServerTimerInput ι → Option ((List ι × Option Int) × ServerTimers ι)
  | .call now call => (call.apply now timers).map fun called => (([], called.2), called.1)
  | .visit now => (qdTimerVisit callback fuel now timers).map fun visited => ((visited.2.1, visited.2.2), visited.1)

/-- `qd_timer_initialize`, with every timer made and idle. -/
def ServerTimers.initial : ServerTimers ι := ⟨[], fun _ => 0, fun _ => .idle, 0, false⟩

/-! ### A timer scheduled from a callback -/

/-- At the clock 1, timer `0` is scheduled with the delay 2 and timer `1` with
the delay 4; the callback of `0` schedules timer `2` with no delay. The visit
at the clock 10 fires `0`, `2` and `1`, with the deadlines 3, 10 and 5. -/
theorem visit_fires_callback_timer_first :
    (Mealy.runPartial (serverTimerStep (fun timer _ => if timer = 0 then [.schedule 2 0] else []) 8)
        (ServerTimers.initial : ServerTimers Nat)
        [.call 1 (.schedule 0 2), .call 1 (.schedule 1 4), .visit 10]).map (·.1) =
      some [([], some 2), ([], some 2), ([0, 2, 1], none)] := by
  decide

end DispatchRouter.Server
