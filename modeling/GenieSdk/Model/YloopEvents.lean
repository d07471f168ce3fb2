import Mathlib.Data.List.Sort
import GenieSdk.Lib.Bytes
import GenieSdk.Lib.TwoEndQueue

/-!
# Delayed actions and posted calls of the event loop

`yloop.c`, `local_event.c`, the event device `device.c` and `aos_poll`, for one loop that alone reads its
event device. `aos_loop_run` is taken apart where other tasks, or the callbacks it calls, may come in between:
before the poll, while it waits, after it, and before the event is read. Allocations succeed.

Delayed actions and calls are numbered as they are posted; the code keeps no such numbers. What was
posted and what was to be cancelled is recorded by the step of the run (`eventLoopStep`), not by the
functions of the code.
-/

set_option autoImplicit false

namespace GenieSdk.Model

open GenieSdk.Lib

/-! ## The event device -/

/-- `dev_event_t`. `id` is the number of the call that it carries, if any. -/
structure DevEvent where
  len : ℕ
  buf : List UInt8
  id : Option ℕ
  deriving DecidableEq

/-- `event_dev_t`; `pollCb` says whether `poll_cb` is set, `revents` whether `POLLIN` is set in what `fd`
points to, and `sem` is the count of the semaphore behind `poll_data`. -/
structure EventDev where
  pollCb : Bool
  revents : Bool
  sem : ℕ
  counter : ℕ
  bufs : List DevEvent
  cacheCount : ℕ
  bufCache : List DevEvent
  deriving DecidableEq

/-- SRCLINE: device.c:34-43 -/
def eventOpen : EventDev :=
  { pollCb := false, revents := false, sem := 0, counter := 0, bufs := [], cacheCount := 0, bufCache := [] }

/-- `POLLIN` is set and `vfs_poll_notify` signals the semaphore. -/
def EventDev.notify (dev : EventDev) : EventDev := { dev with revents := true, sem := dev.sem + 1 }

/-- An event for `buf`: the first of the cache if it has the right length, else a new one.
SRCLINE: device.c:73-86 -/
def takeEvent (dev : EventDev) (buf : List UInt8) (id : Option ℕ) : DevEvent × EventDev :=
  match dev.bufCache with
  | evt :: cache =>
    if 0 < dev.cacheCount ∧ evt.len = buf.length then
      ({ len := buf.length, buf := buf ++ evt.buf.drop buf.length, id },
        { dev with bufCache := cache, cacheCount := dev.cacheCount - 1 })
    else ({ len := buf.length, buf, id }, dev)
  | [] => ({ len := buf.length, buf, id }, dev)

/-- `_event_write`. SRCLINE: device.c:67-105 -/
def eventWrite (dev : EventDev) (buf : List UInt8) (urgent : Bool) (id : Option ℕ) : EventDev :=
  let (evt, dev) := takeEvent dev buf id
  let dev :=
    { dev with
      counter := dev.counter + 1
      bufs := if urgent then evt :: dev.bufs else dev.bufs ++ [evt] }
  if dev.pollCb then dev.notify else dev

def ioctlWriteNormal : ℕ := 1
def ioctlWriteUrgent : ℕ := 2

/-- `MK_CMD` -/
def mkCmd (c l : ℕ) : ℕ := l <<< 4 ||| c

/-- `_GET_LEN` -/
def getLen (cmd : ℕ) : ℕ := cmd >>> 4

/-- `_GET_CMD` -/
def getCmd (cmd : ℕ) : ℕ := cmd &&& 0xF

/-- None if the command is neither of the two. SRCLINE: device.c:112-125 -/
def eventIoctl (dev : EventDev) (cmd : ℕ) (arg : List UInt8) (id : Option ℕ) : Option EventDev :=
  if getCmd cmd = ioctlWriteNormal then some (eventWrite dev (arg.take (getLen cmd)) false id)
  else if getCmd cmd = ioctlWriteUrgent then some (eventWrite dev (arg.take (getLen cmd)) true id)
  else none

/-- The bytes read, and the number of the call in them. SRCLINE: device.c:127-155 -/
def eventRead (dev : EventDev) (len : ℕ) : List UInt8 × Option ℕ × EventDev :=
  if dev.counter = 0 then ([], none, dev)
  else
    match dev.bufs with
    | [] => ([], none, dev)
    | evt :: bufs =>
      (evt.buf.take (if len > evt.len then evt.len else len), evt.id,
        if dev.cacheCount < 4 then
          { dev with
            counter := dev.counter - 1
            bufs
            bufCache := evt :: dev.bufCache
            cacheCount := dev.cacheCount + 1 }
        else { dev with counter := dev.counter - 1, bufs })

/-- SRCLINE: device.c:157-181 -/
def eventPoll (dev : EventDev) (setup : Bool) : EventDev :=
  if setup then
    let dev := { dev with pollCb := true }
    if dev.counter ≠ 0 then dev.notify else dev
  else { dev with pollCb := false }

/-! ## Events -/

/-- `input_event_t` -/
structure InputEvent where
  time : ℕ
  type : ℕ
  code : ℕ
  value : ℕ
  extra : ℕ
  deriving DecidableEq

def evRpc : ℕ := 0x0100
def evFlagUrgent : ℕ := 0x8000

/-- `sizeof(input_event_t)` -/
def inputEventSize : ℕ := 16

/-- The event in memory. -/
def InputEvent.bytes (event : InputEvent) : List UInt8 :=
  leBytes 4 event.time ++ (leBytes 2 event.type ++ (leBytes 2 event.code ++
    (leBytes 4 event.value ++ leBytes 4 event.extra)))

def InputEvent.ofBytes (bytes : List UInt8) : InputEvent :=
  { time := leVal (bytes.take 4)
    type := leVal ((bytes.drop 4).take 2)
    code := leVal ((bytes.drop 6).take 2)
    value := leVal ((bytes.drop 8).take 4)
    extra := leVal ((bytes.drop 12).take 4) }

/-- The call in an event, if it is one; what the filters do with another event is left out.
SRCLINE: local_event.c:37-55 -/
def handleEvents (event : InputEvent) : Option (ℕ × ℕ) :=
  if event.type = evRpc then some (event.value, event.extra) else none

/-- SRCLINE: local_event.c:57-70 -/
def inputAddEvent (dev : EventDev) (event : InputEvent) (id : Option ℕ) : Option EventDev :=
  let event' := { event with type := event.type &&& (0xFFFF ^^^ evFlagUrgent) }
  let cmd :=
    if event.type &&& evFlagUrgent ≠ 0 then mkCmd ioctlWriteUrgent inputEventSize
    else mkCmd ioctlWriteNormal inputEventSize
  eventIoctl dev cmd event'.bytes id

/-- The call that `event_read_cb` makes of what it has read. SRCLINE: local_event.c:72-79 -/
def calledBy (bytes : List UInt8) : Option (ℕ × ℕ) :=
  if bytes.length = inputEventSize then handleEvents (InputEvent.ofBytes bytes) else none

/-! ## The loop -/

/-- `yloop_timeout_t` -/
structure YloopTimeout where
  timeoutMs : ℤ
  privateData : ℕ
  cb : ℕ
  ms : ℤ
  id : ℕ
  deriving DecidableEq

/-- Where `aos_loop_run` is. -/
inductive LoopPc
  | top
  | planned (delayedMs : ℤ)
  | waiting (wakeAt : Option ℤ)
  | woken (ret : ℤ)
  | polled (res : ℤ)
  | served
  deriving DecidableEq

/-- A call that has been posted; `queued` are the numbers of the calls that were in the device then. -/
structure PostedCall where
  func : UInt32
  arg : UInt32
  urgent : Bool
  queued : List ℕ
  deriving DecidableEq

/-- A call that has been made, with the number of the call in the buffer that carried it. -/
structure ExecutedCall where
  id : Option ℕ
  func : ℕ
  arg : ℕ
  deriving DecidableEq

/-- A delayed action that has been posted, at `time`. -/
structure PostedAction where
  time : ℤ
  ms : ℤ
  cb : ℕ
  privateData : ℕ
  deriving DecidableEq

/-- The loop with its event device and the clock, and what has been posted, run and cancelled so far. -/
structure EventLoop where
  now : ℤ
  timeouts : List YloopTimeout
  dev : EventDev
  pc : LoopPc
  posted : List PostedAction
  ran : List (YloopTimeout × ℤ)
  cancelled : List YloopTimeout
  calls : List PostedCall
  executed : List ExecutedCall
  deriving DecidableEq

/-- SRCLINE: yloop.c:67-90 -/
def eventLoopInit : EventLoop :=
  { now := 0, timeouts := [], dev := eventOpen, pc := .top, posted := [], ran := [], cancelled := []
    calls := [], executed := [] }

/-- The numbers of the calls in the device. -/
def queuedCalls (dev : EventDev) : List ℕ := dev.bufs.filterMap DevEvent.id

/-- The list is walked up to the first entry with a later time. `id` is the number of the new entry.
SRCLINE: yloop.c:165-193 -/
def aosPostDelayedAction (s : EventLoop) (id : ℕ) (ms : ℤ) (action param : ℕ) : EventLoop :=
  if action = 0 then s
  else
    let timeout : YloopTimeout :=
      { timeoutMs := s.now + ms, privateData := param, cb := action, ms, id }
    { s with
      timeouts := s.timeouts.orderedInsert (fun timeout tmp => timeout.timeoutMs < tmp.timeoutMs) timeout }

/-- The three tests of `aos_cancel_delayed_action`. -/
def cancelMatches (ms : ℤ) (cb privateData : ℕ) (tmp : YloopTimeout) : Bool :=
  (ms = -1 || tmp.ms = ms) && tmp.cb = cb && tmp.privateData = privateData

/-- SRCLINE: yloop.c:195-217 -/
def aosCancelDelayedAction (s : EventLoop) (ms : ℤ) (cb privateData : ℕ) : EventLoop :=
  { s with timeouts := s.timeouts.eraseP (cancelMatches ms cb privateData) }

/-- `_schedule_call`; `id` is the number of the call. SRCLINE: local_event.c:162-184 -/
def scheduleCall (s : EventLoop) (id : ℕ) (func arg : UInt32) (urgent : Bool) : Option EventLoop :=
  if func = 0 then some s
  else
    let event : InputEvent :=
      { time := 0, type := evRpc, code := 0, value := func.toNat, extra := arg.toNat }
    let event := if urgent then { event with type := event.type ||| evFlagUrgent } else event
    (inputAddEvent s.dev event (some id)).map fun dev => { s with dev }

/-- SRCLINE: local_event.c:196-199 -/
def aosScheduleCall (s : EventLoop) (id : ℕ) (func arg : UInt32) : Option EventLoop :=
  scheduleCall s id func arg false

/-- SRCLINE: local_event.c:186-189 -/
def aosLoopScheduleUrgentCall (s : EventLoop) (id : ℕ) (func arg : UInt32) : Option EventLoop :=
  scheduleCall s id func arg true

/-- The time to wait. SRCLINE: yloop.c:223-238 -/
def loopPlan (s : EventLoop) : Option EventLoop :=
  if s.pc = .top then
    some { s with
      pc := .planned (match s.timeouts with
        | [] => -1
        | tmo :: _ => if s.now < tmo.timeoutMs then tmo.timeoutMs - s.now else 0) }
  else none

/-- `init_parg` and `pre_poll`. SRCLINE: select.c:61-65, 260-293 -/
def loopSetup (s : EventLoop) : Option EventLoop :=
  match s.pc with
  | .planned delayedMs =>
    some { s with
      dev := eventPoll { s.dev with revents := false, sem := 0 } true
      pc := .waiting (if delayedMs ≥ 0 then some (s.now + delayedMs) else none) }
  | _ => none

/-- The time to wait is over. -/
def isOver (now : ℤ) (wakeAt : Option ℤ) : Bool := wakeAt.any fun t => t ≤ now

/-- `wait_io` returns `ret`: it was signalled, the time is over, or something else that it waits for has
happened (`other`). `isset` is what `FD_ISSET` says of the event device. SRCLINE: select.c:54-59, 344-357 -/
def loopWake (s : EventLoop) (ret : ℤ) (isset other : Bool) : Option EventLoop :=
  match s.pc with
  | .waiting wakeAt =>
    if 0 < s.dev.sem || isOver s.now wakeAt || other then
      some { s with
        dev := if ret ≥ 0 && isset then { s.dev with revents := true } else s.dev
        pc := .woken ret }
    else none
  | _ => none

/-- `post_poll`, and what `aos_poll` returns. SRCLINE: select.c:295-324, 359-366 -/
def loopTeardown (s : EventLoop) : Option EventLoop :=
  match s.pc with
  | .woken ret =>
    some { s with
      dev := eventPoll s.dev false
      pc := .polled (if ret < 0 then 0 else ret + if s.dev.revents then 1 else 0) }
  | _ => none

/-- The first delayed action, if it is due. SRCLINE: yloop.c:252-262 -/
def runTimeout (s : EventLoop) : EventLoop :=
  match s.timeouts with
  | tmo :: timeouts =>
    if s.now ≥ tmo.timeoutMs then { s with timeouts, ran := s.ran ++ [(tmo, s.now)] } else s
  | [] => s

/-- SRCLINE: yloop.c:252-266 -/
def loopFire (s : EventLoop) : Option EventLoop :=
  match s.pc with
  | .polled res => some { runTimeout s with pc := if res ≤ 0 then .top else .served }
  | _ => none

/-- SRCLINE: yloop.c:268-274 -/
def loopRead (s : EventLoop) : Option EventLoop :=
  if s.pc = .served then
    if s.dev.revents then
      let (bytes, id, dev) := eventRead s.dev inputEventSize
      some { s with
        dev
        pc := .top
        executed := s.executed ++
          ((calledBy bytes).map fun call => { id, func := call.1, arg := call.2 }).toList }
    else some { s with pc := .top }
  else none

/-! ## Runs -/

inductive EventLoopAct
  | pass (ms : ℕ)
  | postDelayed (ms : ℤ) (action param : ℕ)
  | cancelDelayed (ms : ℤ) (cb privateData : ℕ)
  | schedule (func arg : UInt32)
  | scheduleUrgent (func arg : UInt32)
  | event (buf : List UInt8) (urgent : Bool)
  | plan
  | setup
  | wake (ret : ℤ) (isset other : Bool)
  | teardown
  | fire
  | read
  deriving DecidableEq

/-- What a caller asks to cancel: the first pending action with this callback and this data, and, unless
`ms` is -1, this delay. -/
def firstPending (s : EventLoop) (ms : ℤ) (cb privateData : ℕ) : Option YloopTimeout :=
  s.timeouts.find? fun tmo => decide ((ms ≠ -1 → tmo.ms = ms) ∧ tmo.cb = cb ∧ tmo.privateData = privateData)

/-- A call is posted; one without a function is refused. -/
def recordCall (s : EventLoop) (func arg : UInt32) (urgent : Bool) (t : EventLoop) : EventLoop :=
  if func = 0 then t
  else { t with calls := s.calls ++ [{ func, arg, urgent, queued := queuedCalls s.dev }] }

/-- Events that are no calls may be written to the device at any time. The step records what is posted and
what is to be cancelled. -/
def eventLoopStep (s : EventLoop) : EventLoopAct → Option EventLoop
  | .pass ms => some { s with now := s.now + ms }
  | .postDelayed ms action param =>
    let post : PostedAction := { time := s.now, ms, cb := action, privateData := param }
    some { aosPostDelayedAction s s.posted.length ms action param with
      posted := if action = 0 then s.posted else s.posted ++ [post] }
  | .cancelDelayed ms cb privateData =>
    some { aosCancelDelayedAction s ms cb privateData with
      cancelled := s.cancelled ++ (firstPending s ms cb privateData).toList }
  | .schedule func arg =>
    (aosScheduleCall s s.calls.length func arg).map (recordCall s func arg false)
  | .scheduleUrgent func arg =>
    (aosLoopScheduleUrgentCall s s.calls.length func arg).map (recordCall s func arg true)
  | .event buf urgent =>
    if (calledBy (buf.take inputEventSize)).isNone then
      some { s with dev := eventWrite s.dev buf urgent none }
    else none
  | .plan => loopPlan s
  | .setup => loopSetup s
  | .wake ret isset other => loopWake s ret isset other
  | .teardown => loopTeardown s
  | .fire => loopFire s
  | .read => loopRead s

end GenieSdk.Model
