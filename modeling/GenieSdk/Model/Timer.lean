import GenieSdk.Model.Kernel

/-!
# Software timers

`k_timer.c`: the timer task, its list `g_timer_head` of running timers and the queue of commands
that every other task, interrupt or callback sends it. The task is modelled one step at a time,
with a step for each call of `krhino_buf_queue_recv`, each reading of the tick count with what
follows it, and each round of the loop in `timer_cb_proc`, so that ticks and commands may come
between any two of them. `g_timer_queue` is a bounded first-in first-out queue. While the task is
blocked in `krhino_buf_queue_recv`, a command is handed to it past the queue, and the tick that
reaches the end of its wait makes the call return `RHINO_BLK_TIMEOUT`; what comes first decides.
`log` records what happens to the timers.
-/

set_option autoImplicit false

namespace GenieSdk.Model

/-- `MAX_TIMER_TICKS`, for the 64-bit `tick_t` -/
def maxTimerTicks : ℕ := 2 ^ 63 - 1

/-- `RHINO_CONFIG_TIMER_MSG_NUM` -/
def timerMsgNum : ℕ := 20

/-- `k_timer_state_t` -/
inductive TimerState
  | deactive
  | active
  deriving DecidableEq, Repr

/-- `ktimer_t`. `isTimer` is `obj_type == RHINO_TIMER_OBJ_TYPE`, `toHead` is `to_head != NULL` and
`matchTick` is `match`. -/
structure KTimer where
  toHead : Bool
  timerCbArg : ℕ
  matchTick : ℕ
  remain : ℕ
  initCount : ℕ
  roundTicks : ℕ
  isTimer : Bool
  timerState : TimerState
  mmAllocFlag : AllocFlag
  deriving DecidableEq, Repr

/-- `cb_num` -/
inductive TimerCmd
  | start
  | stop
  | chg
  | argChg
  | argChgAuto
  | del
  | dynDel
  deriving DecidableEq, Repr

/-- `k_timer_queue_cb` -/
structure TimerQueueCb where
  timer : ℕ
  cbNum : TimerCmd
  first : ℕ
  round : ℕ
  arg : ℕ
  deriving DecidableEq, Repr

/-- Where the timer task is, with its local variables. -/
inductive TimerPc
  | recvForever
  | blockedForever
  | received (cb : TimerQueueCb)
  | whileHead
  | recvDelta (tickStart delta : ℕ)
  | blocked (tickStart deadline : ℕ)
  | receivedInTime (cb : TimerQueueCb)
  | timedOut
  | cbProc (q : Option ℕ)
  deriving DecidableEq, Repr

/-- A timer enters the list, is told to stop, or has its callback called. -/
inductive TimerEvent
  | started (timer : ℕ)
  | stopped (timer : ℕ)
  | fired (timer roundTicks : ℕ)
  deriving DecidableEq, Repr

/-- `head` is the list `g_timer_head`, `timerCount` is `g_timer_count`, `tickCount` is
`g_tick_count`. -/
structure TimerSys where
  timers : ℕ → KTimer
  head : List ℕ
  timerCount : ℕ
  queue : List TimerQueueCb
  tickCount : ℕ
  pc : TimerPc
  log : List TimerEvent

/-- SRCLINE: k_timer.c:427-438 -/
def ktimerInit : TimerSys where
  timers := fun _ =>
    { toHead := false, timerCbArg := 0, matchTick := 0, remain := 0, initCount := 0, roundTicks := 0
      isTimer := false, timerState := .deactive, mmAllocFlag := .staticAlloc }
  head := []
  timerCount := 0
  queue := []
  tickCount := 0
  pc := .recvForever
  log := []

/-- Write one timer. -/
def TimerSys.set (s : TimerSys) (timer : ℕ) (t : KTimer) : TimerSys :=
  { s with timers := Function.update s.timers timer t }

def TimerSys.record (s : TimerSys) (e : TimerEvent) : TimerSys := { s with log := s.log ++ [e] }

/-- The loop of `timer_list_pri_insert`: `val` is compared with the unsigned remaining time of each
listed timer. SRCLINE: k_timer.c:8-27 -/
def timerListPriInsert (s : TimerSys) (timer val : ℕ) : List ℕ → List ℕ
  | [] => [timer]
  | q :: rest =>
    if val < subTime (s.timers q).matchTick s.timerCount then timer :: q :: rest
    else q :: timerListPriInsert s timer val rest

/-- SRCLINE: k_timer.c:29-38 -/
def timerListRm (s : TimerSys) (timer : ℕ) : TimerSys :=
  if (s.timers timer).toHead then
    { s with head := s.head.erase timer }.set timer { s.timers timer with toHead := false }
  else s

/-- A timer is to run for `ticks` from `g_timer_count` on.
SRCLINE: k_timer.c:248-251, 277-282 -/
def timerEnlist (s : TimerSys) (timer ticks : ℕ) : TimerSys :=
  let s := s.set timer { s.timers timer with
    matchTick := addTime s.timerCount ticks, remain := ticks, toHead := true }
  { s with head := timerListPriInsert s timer (s.timers timer).remain s.head }

/-- The commands; the last case is the `default` of the `switch`. SRCLINE: k_timer.c:262-363 -/
def cmdProc (s : TimerSys) (cb : TimerQueueCb) : TimerCmd → Option TimerSys
  | .start =>
    if (s.timers cb.timer).isTimer = false then some s
    else if (s.timers cb.timer).timerState = .active then some s
    else
      let s := timerEnlist s cb.timer (s.timers cb.timer).initCount
      let s := s.set cb.timer { s.timers cb.timer with timerState := .active }
      some (s.record (.started cb.timer))
  | .stop =>
    let s := s.record (.stopped cb.timer)
    if (s.timers cb.timer).isTimer = false then some s
    else if (s.timers cb.timer).timerState = .deactive then some s
    else
      let s := timerListRm s cb.timer
      some (s.set cb.timer { s.timers cb.timer with timerState := .deactive })
  | .chg =>
    if cb.first = 0 then some s
    else if (s.timers cb.timer).isTimer = false then some s
    else if (s.timers cb.timer).timerState ≠ .deactive then some s
    else
      some (s.set cb.timer
        { s.timers cb.timer with initCount := cb.first, roundTicks := cb.round })
  | .argChg =>
    if (s.timers cb.timer).isTimer = false then some s
    else if (s.timers cb.timer).timerState ≠ .deactive then some s
    else some (s.set cb.timer { s.timers cb.timer with timerCbArg := cb.arg })
  | .del =>
    if (s.timers cb.timer).isTimer = false then some s
    else if (s.timers cb.timer).timerState ≠ .deactive then some s
    else if (s.timers cb.timer).mmAllocFlag ≠ .staticAlloc then some s
    else some (s.set cb.timer { s.timers cb.timer with isTimer := false })
  | .dynDel =>
    if (s.timers cb.timer).isTimer = false then some s
    else if (s.timers cb.timer).timerState ≠ .deactive then some s
    else if (s.timers cb.timer).mmAllocFlag ≠ .dynAlloc then some s
    else some (s.set cb.timer { s.timers cb.timer with isTimer := false })
  | .argChgAuto => none

/-- SRCLINE: k_timer.c:365-375 -/
def timerCmdProc (s : TimerSys) (cb : TimerQueueCb) : Option TimerSys :=
  if cb.cbNum = .argChgAuto then
    match cmdProc s cb .stop with
    | none => none
    | some s =>
      match cmdProc s cb .argChg with
      | none => none
      | some s => cmdProc s cb .start
  else cmdProc s cb cb.cbNum

/-- `q->next` in a list that ends at `g_timer_head` -/
def nextIn (q : ℕ) : List ℕ → Option ℕ
  | [] => none
  | a :: rest => if a = q then rest.head? else nextIn q rest

/-- One round of the loop in `timer_cb_proc`. A removed node keeps its `next` pointer; a node that
is listed again has a new one. SRCLINE: k_timer.c:239-259 -/
def timerCbProc (s : TimerSys) : Option ℕ → TimerSys
  | none => { s with pc := .whileHead }
  | some q =>
    let timer := s.timers q
    if intDelta timer.matchTick s.timerCount ≤ 0 then
      let next := nextIn q s.head
      let s := timerListRm (s.record (.fired q timer.roundTicks)) q
      if 0 < timer.roundTicks then
        let s := timerEnlist s q timer.roundTicks
        { s with pc := .cbProc (nextIn q s.head) }
      else
        { s.set q { s.timers q with timerState := .deactive } with pc := .cbProc next }
    else { s with pc := .whileHead }

/-- The next step of the timer task; none while it is blocked. SRCLINE: k_timer.c:377-425 -/
def timerTask (s : TimerSys) : Option TimerSys :=
  match s.pc with
  | .recvForever =>
    match s.queue with
    | [] => some { s with pc := .blockedForever }
    | cb :: queue => some { s with queue := queue, pc := .received cb }
  | .blockedForever => none
  | .received cb =>
    match timerCmdProc { s with timerCount := s.tickCount } cb with
    | none => none
    | some s => some { s with pc := .whileHead }
  | .whileHead =>
    match s.head with
    | [] => some { s with pc := .recvForever }
    | timer :: _ =>
      let delta := intDelta (s.timers timer).matchTick s.tickCount
      if 0 < delta then some { s with pc := .recvDelta s.tickCount delta.toNat }
      else some { s with timerCount := s.tickCount, pc := .cbProc s.head.head? }
  | .recvDelta tickStart delta =>
    match s.queue with
    | [] => some { s with pc := .blocked tickStart (addTime s.tickCount delta) }
    | cb :: queue => some { s with queue := queue, pc := .receivedInTime cb }
  | .blocked _ _ => none
  | .receivedInTime cb =>
    match timerCmdProc { s with timerCount := s.tickCount } cb with
    | none => none
    | some s => some { s with pc := .cbProc s.head.head? }
  | .timedOut => some { s with timerCount := s.tickCount, pc := .cbProc s.head.head? }
  | .cbProc q => some (timerCbProc s q)

/-- `tick_list_update`, for the timer task: a receive that is blocked up to its deadline ends.
SRCLINE: k_tick.c:58-125 -/
def timerTick (s : TimerSys) (ticks : ℕ) : TimerSys :=
  let s := { s with tickCount := addTime s.tickCount ticks }
  match s.pc with
  | .blocked _ deadline =>
    if intDelta deadline s.tickCount ≤ 0 then { s with pc := .timedOut } else s
  | _ => s

/-- `krhino_buf_queue_send` to `g_timer_queue`: a task that is blocked in the receive gets the
message, otherwise it is queued. SRCLINE: k_buf_queue.c:190-268 -/
def timerSend (s : TimerSys) (cb : TimerQueueCb) : KStat × TimerSys :=
  match s.pc with
  | .blockedForever => (.success, { s with pc := .received cb })
  | .blocked _ _ => (.success, { s with pc := .receivedInTime cb })
  | _ =>
    if s.queue.length < timerMsgNum then (.success, { s with queue := s.queue ++ [cb] })
    else (.bufQueueFull, s)

/-- A command without parameters. -/
def timerSendCmd (s : TimerSys) (timer : ℕ) (cmd : TimerCmd) : KStat × TimerSys :=
  timerSend s { timer := timer, cbNum := cmd, first := 0, round := 0, arg := 0 }

/-- SRCLINE: k_timer.c:147-158 -/
def krhinoTimerStart (s : TimerSys) (timer : ℕ) : KStat × TimerSys := timerSendCmd s timer .start

/-- SRCLINE: k_timer.c:160-171 -/
def krhinoTimerStop (s : TimerSys) (timer : ℕ) : KStat × TimerSys := timerSendCmd s timer .stop

/-- SRCLINE: k_timer.c:92-102 -/
def krhinoTimerDel (s : TimerSys) (timer : ℕ) : KStat × TimerSys := timerSendCmd s timer .del

/-- SRCLINE: k_timer.c:132-144 -/
def krhinoTimerDynDel (s : TimerSys) (timer : ℕ) : KStat × TimerSys := timerSendCmd s timer .dynDel

/-- SRCLINE: k_timer.c:173-198 -/
def krhinoTimerChange (s : TimerSys) (timer first round : ℕ) : KStat × TimerSys :=
  if first = 0 then (.invParam, s)
  else if maxTimerTicks ≤ first then (.invParam, s)
  else if maxTimerTicks ≤ round then (.invParam, s)
  else timerSend s { timer := timer, cbNum := .chg, first := first, round := round, arg := 0 }

/-- SRCLINE: k_timer.c:200-212 -/
def krhinoTimerArgChange (s : TimerSys) (timer arg : ℕ) : KStat × TimerSys :=
  timerSend s { timer := timer, cbNum := .argChg, first := 0, round := 0, arg := arg }

/-- SRCLINE: k_timer.c:214-227 -/
def krhinoTimerArgChangeAuto (s : TimerSys) (timer arg : ℕ) : KStat × TimerSys :=
  timerSend s { timer := timer, cbNum := .argChgAuto, first := 0, round := 0, arg := arg }

/-- SRCLINE: k_timer.c:40-80 -/
def timerCreate (s : TimerSys) (timer first round arg : ℕ) (autoRun : Bool)
    (mmAllocFlag : AllocFlag) : KStat × TimerSys :=
  if first = 0 then (.invParam, s)
  else if maxTimerTicks ≤ first then (.invParam, s)
  else if maxTimerTicks ≤ round then (.invParam, s)
  else
    let s := s.set timer
      { toHead := false, timerCbArg := arg, matchTick := 0, remain := 0, initCount := first
        roundTicks := round, isTimer := true, timerState := .deactive, mmAllocFlag := mmAllocFlag }
    if autoRun then krhinoTimerStart s timer else (.success, s)

/-- SRCLINE: k_timer.c:85-90 -/
def krhinoTimerCreate (s : TimerSys) (timer first round arg : ℕ) (autoRun : Bool) :
    KStat × TimerSys :=
  timerCreate s timer first round arg autoRun .staticAlloc

/-- `timer` is the new object; it is freed if the creation fails. SRCLINE: k_timer.c:105-130 -/
def krhinoTimerDynCreate (s : TimerSys) (timer first round arg : ℕ) (autoRun : Bool) :
    KStat × TimerSys :=
  let r := timerCreate s timer first round arg autoRun .dynAlloc
  if r.1 = .success then r else (r.1, s)

end GenieSdk.Model
