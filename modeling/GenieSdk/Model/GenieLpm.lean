import GenieSdk.Model.Timer
import GenieSdk.Model.Transport

/-!
# Low power

`genie_lpm.c` with its four timers. What `genie_mesh_suspend` and `genie_mesh_resume` return is
given with each action, as are the levels of the wake-up pins. The commands to a timer are carried
out at once, as the timer task carries them out in order. `log` records what requests to enable
and to disable return, and the calls of `genie_lpm_cb`.
-/

set_option autoImplicit false

namespace GenieSdk.Model

/-! ## `aos_timer_t` -/

/-- `aos_timer_t` with its `ktimer_t`; `hdl` is `hdl != NULL`, `armed` is
`timer_state == TIMER_ACTIVE`. -/
structure AosTimer where
  hdl : Bool
  armed : Bool
  initCount : ℕ
  roundTicks : ℕ
  deriving DecidableEq

/-- `MS2TICK` at 1000 ticks per second; the milliseconds go through an `int` to 64 bits. -/
def ms2tick (ms : ℕ) : ℕ :=
  let ms := ms % 2 ^ 32
  if ms < 2 ^ 31 then ms else 2 ^ 64 - 2 ^ 32 + ms

namespace AosTimer

/-- A timer nobody has created. -/
def null : AosTimer := { hdl := false, armed := false, initCount := 0, roundTicks := 0 }

/-- `aos_timer_new` of a timer that fires once, started by itself. SRCLINE: aos_rhino.c:457-480 -/
def new (timer : AosTimer) (ms : ℕ) : AosTimer :=
  if ms2tick ms = 0 then timer
  else if maxTimerTicks ≤ ms2tick ms then timer
  else { hdl := true, armed := true, initCount := ms2tick ms, roundTicks := 0 }

/-- SRCLINE: aos_rhino.c:508-516, k_timer.c:340-357 -/
def free (timer : AosTimer) : AosTimer :=
  if timer.hdl = false then timer
  else if timer.armed then { timer with hdl := false }
  else null

/-- SRCLINE: aos_rhino.c:518-532, k_timer.c:268-284 -/
def start (timer : AosTimer) : AosTimer :=
  if timer.hdl = false then timer else { timer with armed := true }

/-- SRCLINE: aos_rhino.c:534-548, k_timer.c:285-295 -/
def stop (timer : AosTimer) : AosTimer :=
  if timer.hdl = false then timer else { timer with armed := false }

/-- `krhino_timer_change`. SRCLINE: k_timer.c:173-198, 296-311 -/
def changeTicks (timer : AosTimer) (first round : ℕ) : AosTimer :=
  if timer.hdl = false then timer
  else if first = 0 ∨ maxTimerTicks ≤ first ∨ maxTimerTicks ≤ round then timer
  else if timer.armed then timer
  else { timer with initCount := first, roundTicks := round }

/-- SRCLINE: aos_rhino.c:550-564 -/
def change (timer : AosTimer) (ms : ℕ) : AosTimer := timer.changeTicks (ms2tick ms) (ms2tick ms)

/-- SRCLINE: aos_rhino.c:566-582 -/
def changeOnce (timer : AosTimer) (ms : ℕ) : AosTimer := timer.changeTicks (ms2tick ms) 0

/-- The time of an armed timer is over; its callback comes next. -/
def fired (timer : AosTimer) : AosTimer :=
  if timer.roundTicks = 0 then { timer with armed := false } else timer

end AosTimer

/-! ## The state -/

inductive LpmStatus
  | wakeup
  | sleep
  deriving DecidableEq

inductive LpmWakeupReason
  | byIo
  | byTimer
  | isWakeup
  deriving DecidableEq

/-- `enum io_pol` -/
inductive IoPol
  | falling
  | rising
  | actLow
  | actHigh
  deriving DecidableEq

structure WakeupIo where
  port : ℕ
  ioPol : IoPol
  deriving DecidableEq

structure LpmIoStatus where
  port : ℕ
  status : Bool
  triggerFlag : Bool
  deriving DecidableEq

/-- `genie_lpm_conf_t`; `lpmWakeupIo`, `lpmWakeupMsg` and `genieLpmCb` say that the field is not 0,
`isAutoEnable` that it is 1. -/
structure LpmConf where
  lpmWakeupIo : Bool
  ioConfig : List WakeupIo
  lpmWakeupMsg : Bool
  isAutoEnable : Bool
  delaySleepTime : ℕ
  sleepMs : ℕ
  wakeupMs : ℕ
  genieLpmCb : Bool
  deriving DecidableEq

/-- `genie_lpm_enable` or `genie_lpm_disable` returns, `genie_lpm_cb` is called. -/
inductive LpmEvent
  | enabled (force : Bool) (ret : ℤ)
  | disabled (ret : ℤ)
  | called (reason : LpmWakeupReason) (status : LpmStatus) (list : List LpmIoStatus)
  deriving DecidableEq

/-- `genie_lpm_ctx` with `g_wakeup_io` and `msg_lpm_disable`. -/
structure LpmSys where
  config : LpmConf
  status : LpmStatus
  hasDisabled : Bool
  delaySleepTimer : AosTimer
  glpWakeupTimer : AosTimer
  ioWakeupTimer : AosTimer
  msgWakeupTimer : AosTimer
  wakeupIo : List WakeupIo
  msgLpmDisable : Bool
  log : List LpmEvent
  deriving DecidableEq

/-- `EALREADY` -/
def ealready : ℤ := 69

/-- `0 == ret || -EALREADY == ret` -/
def retOk (ret : ℤ) : Bool := ret = 0 ∨ ret = -ealready

/-- `(ret == -EALREADY) ? 0 : ret` -/
def retOf (ret : ℤ) : ℤ := if ret = -ealready then 0 else ret

/-- `DEFAULT_BOOTUP_DELAY_SLEEP_TIME` -/
def defaultBootupDelaySleepTime : ℕ := 10000

/-- `MSG_ACTIVE_TIME_MIN` -/
def msgActiveTimeMin : ℕ := 2000

/-- `MSG_ACTIVE_TIME_DEFAULT` -/
def msgActiveTimeDefault : ℕ := 5000

/-- `MSG_ACK_AFTER_SLEEP_TIME` -/
def msgAckAfterSleepTime : ℕ := 2000

/-- `MSG_UNACK_AFTER_SLEEP_TIME` -/
def msgUnackAfterSleepTime : ℕ := 100

/-- `MSG_CHECK_AGAIN_TIME` -/
def msgCheckAgainTime : ℕ := 500

/-- `GENIE_WAKE_UP_IO_NUM_MAX` -/
def genieWakeUpIoNumMax : ℕ := 4

namespace LpmSys

def record (s : LpmSys) (e : LpmEvent) : LpmSys := { s with log := s.log ++ [e] }

/-- `sleep_ms` and `wakeup_ms` are not 0. -/
def cycles (s : LpmSys) : Bool := s.config.sleepMs ≠ 0 ∧ s.config.wakeupMs ≠ 0

/-- `genie_lpm_cb` is called if there is one. -/
def callback (s : LpmSys) (reason : LpmWakeupReason) (list : List LpmIoStatus) : LpmSys :=
  if s.config.genieLpmCb then s.record (.called reason s.status list) else s

/-- `glp_wakeup_timer` is stopped, changed and started. -/
def rearmGlp (s : LpmSys) (ms : ℕ) : LpmSys :=
  { s with glpWakeupTimer := (s.glpWakeupTimer.stop.changeOnce ms).start }

/-- `msg_wakeup_timer` is stopped, changed and started. -/
def rearmMsg (s : LpmSys) (ms : ℕ) : LpmSys :=
  { s with msgWakeupTimer := (s.msgWakeupTimer.stop.changeOnce ms).start }

end LpmSys

/-! ## Requests -/

/-- SRCLINE: genie_lpm.c:348-369 -/
def genieLpmDisable (s : LpmSys) (resume : ℤ) : ℤ × LpmSys :=
  let s :=
    if retOk resume then
      let s := { s with hasDisabled := true, status := .wakeup }
      if s.cycles then { s with glpWakeupTimer := s.glpWakeupTimer.stop } else s
    else s
  (retOf resume, s.record (.disabled (retOf resume)))

/-- SRCLINE: genie_lpm.c:371-416 -/
def genieLpmEnable (s : LpmSys) (force : Bool) (suspend : ℤ) : ℤ × LpmSys :=
  let s :=
    if retOk suspend then
      let s := { s with hasDisabled := false, status := .sleep }
      if s.cycles then
        if force then { s with glpWakeupTimer := s.glpWakeupTimer.stop }
        else { s with delaySleepTimer := s.delaySleepTimer.stop.free }.rearmGlp s.config.sleepMs
      else s
    else { s with delaySleepTimer := (s.delaySleepTimer.stop.change 5000).start }
  (retOf suspend, s.record (.enabled force (retOf suspend)))

/-- SRCLINE: genie_lpm.c:476-493 -/
def genieLpmStart (s : LpmSys) (suspend : ℤ) : LpmSys :=
  if s.config.isAutoEnable then
    if 0 < s.config.delaySleepTime then { s with delaySleepTimer := s.delaySleepTimer.start }
    else (genieLpmEnable s false suspend).2
  else s

/-! ## Messages -/

/-- SRCLINE: genie_lpm.c:178-197 -/
def genieLpmMsgActive (s : LpmSys) (sleepMs : ℕ) (resume : ℤ) : ℤ × LpmSys :=
  if s.msgLpmDisable = false then
    let r := genieLpmDisable s resume
    if r.1 ≠ 0 then r else (r.1, { r.2 with msgLpmDisable := true }.rearmMsg sleepMs)
  else (0, s.rearmMsg sleepMs)

/-- SRCLINE: genie_lpm.c:199-208 -/
def genieLpmMsgSleep (s : LpmSys) (afterMs : ℕ) : LpmSys :=
  if s.msgLpmDisable then s.rearmMsg afterMs else s

/-- The payload of an attribute message. -/
structure LpmMesg where
  opid : UInt8
  data : List ℕ
  deriving DecidableEq

/-- `VENDOR_OP_ATTR_SET_UNACK` -/
def vendorOpAttrSetUnack : UInt8 := 0xD2

/-- `MSG_ATTR_TYPE_ACTIVE_WAKEUP` -/
def msgAttrTypeActiveWakeup : ℕ := 0x01BA

/-- `MSG_ATTR_TYPE_ENTER_SLEEP` -/
def msgAttrTypeEnterSleep : ℕ := 0x01BB

/-- `attr_type` -/
def LpmMesg.attrType (m : LpmMesg) : ℕ := (m.data.getD 0 0 + 256 * m.data.getD 1 0) % 2 ^ 16

/-- `attr_time` as it is read: the product is cut to 16 bits. -/
def LpmMesg.attrTime (m : LpmMesg) : ℕ :=
  ((m.data.getD 2 0 + 256 * m.data.getD 3 0) * 1000) % 2 ^ 16

/-- The time `_genie_lpm_msg_active` is given. -/
def activeTime (attrTime : ℕ) : ℕ :=
  let attrTime := if attrTime = 0 then msgActiveTimeDefault else attrTime
  if attrTime < msgActiveTimeMin then msgActiveTimeMin else attrTime

/-- The time `_genie_lpm_msg_sleep` is given. -/
def sleepTime (opid : UInt8) (attrTime : ℕ) : ℕ :=
  if opid = vendorOpAttrSetAck ∧ attrTime < msgAckAfterSleepTime then msgAckAfterSleepTime
  else if opid = vendorOpAttrSetUnack ∧ attrTime < msgUnackAfterSleepTime then
    msgUnackAfterSleepTime
  else attrTime

/-- SRCLINE: genie_lpm.c:264-346 -/
def genieLpmHandleModelMesg (s : LpmSys) (m : LpmMesg) (resume : ℤ) : LpmSys :=
  if s.config.lpmWakeupMsg = false then s
  else if m.opid = vendorOpAttrSetUnack ∨ m.opid = vendorOpAttrSetAck then
    if m.attrType = msgAttrTypeActiveWakeup then
      (genieLpmMsgActive s (activeTime m.attrTime) resume).2
    else if m.attrType = msgAttrTypeEnterSleep then
      genieLpmMsgSleep s (sleepTime m.opid m.attrTime)
    else s
  else s

/-! ## Timers -/

/-- SRCLINE: genie_lpm.c:18-21 -/
def genieLpmDelaySleepTimerIrqHandler (s : LpmSys) (suspend : ℤ) : LpmSys :=
  (genieLpmEnable s false suspend).2

/-- `ret` is the result of `genie_mesh_suspend` or of `genie_mesh_resume`. The second branch calls
`genie_lpm_cb` without looking whether there is one. SRCLINE: genie_lpm.c:23-77 -/
def genieLpmGlpTimerIrqHandler (s : LpmSys) (ret : ℤ) : LpmSys :=
  if s.hasDisabled then { s with glpWakeupTimer := s.glpWakeupTimer.stop }
  else
    match s.status with
    | .wakeup =>
      if retOk ret then
        ({ s with status := .sleep }.callback .byTimer []).rearmGlp s.config.sleepMs
      else s.rearmGlp s.config.wakeupMs
    | .sleep =>
      if retOk ret then
        ({ s with status := .wakeup }.record (.called .byTimer .wakeup [])).rearmGlp
          s.config.wakeupMs
      else s.rearmGlp s.config.sleepMs

/-- Whether a pin at this level wakes the device up. -/
def IoPol.triggers : IoPol → Bool → Bool
  | .falling, status => !status
  | .actLow, status => !status
  | .rising, status => status
  | .actHigh, status => status

/-- `_io_status`; `high` are the ports at a high level. -/
def ioStatusList (wakeupIo : List WakeupIo) (high : List ℕ) : List LpmIoStatus :=
  wakeupIo.map fun io =>
    let status : Bool := io.port ∈ high
    if io.ioPol.triggers status then { port := io.port, status := status, triggerFlag := true }
    else { port := 0, status := false, triggerFlag := false }

/-- SRCLINE: genie_lpm.c:79-135 -/
def genieLpmIoWakeupTimerHandler (s : LpmSys) (high : List ℕ) (resume : ℤ) : LpmSys :=
  if s.config.lpmWakeupIo = false then s
  else
    let ioStatus := ioStatusList s.wakeupIo high
    if ioStatus.any (·.triggerFlag) then
      match s.status with
      | .sleep =>
        if resume = 0 then { s with status := .wakeup }.callback .byIo ioStatus else s
      | .wakeup => s.callback .isWakeup []
    else s

/-- SRCLINE: genie_lpm.c:137-141 -/
def genieLpmIoWakeupHandler (s : LpmSys) : LpmSys :=
  { s with ioWakeupTimer := s.ioWakeupTimer.stop.start }

/-- SRCLINE: genie_lpm.c:210-226 -/
def genieLpmMsgTimerCb (s : LpmSys) (suspend : ℤ) : LpmSys :=
  let s := { s with msgWakeupTimer := s.msgWakeupTimer.stop }
  let r := genieLpmEnable s false suspend
  let s := r.2
  if r.1 ≠ 0 then
    { s with msgWakeupTimer := (s.msgWakeupTimer.changeOnce msgCheckAgainTime).start }
  else { s with msgLpmDisable := false }

/-! ## The system -/

/-- SRCLINE: genie_lpm.c:433-474 -/
def genieLpmInit (conf : LpmConf) : LpmSys :=
  let s : LpmSys :=
    { config := conf, status := .wakeup, hasDisabled := false, delaySleepTimer := .null
      glpWakeupTimer := .null, ioWakeupTimer := .null, msgWakeupTimer := .null, wakeupIo := []
      msgLpmDisable := false, log := [] }
  if conf.genieLpmCb = false then s
  else
    let delay :=
      if conf.delaySleepTime = 0 then defaultBootupDelaySleepTime else conf.delaySleepTime
    let s := { s with config := { conf with delaySleepTime := delay } }
    let s :=
      if conf.lpmWakeupIo ∧ conf.ioConfig ≠ [] then
        { s with
          wakeupIo := conf.ioConfig.take genieWakeUpIoNumMax
          ioWakeupTimer := (s.ioWakeupTimer.new 1).stop }
      else s
    let s :=
      if s.cycles then { s with glpWakeupTimer := (s.glpWakeupTimer.new 10).stop } else s
    let s := { s with delaySleepTimer := (s.delaySleepTimer.new delay).stop }
    if conf.lpmWakeupMsg then
      { s with msgWakeupTimer := (s.msgWakeupTimer.new msgActiveTimeDefault).stop }
    else s

/-- What may happen, with the results of `genie_mesh_suspend` and `genie_mesh_resume`. -/
inductive LpmAct
  | start (suspend : ℤ)
  | enable (force : Bool) (suspend : ℤ)
  | disable (resume : ℤ)
  | mesg (m : LpmMesg) (resume : ℤ)
  | ioWakeup
  | delaySleepTimer (suspend : ℤ)
  | glpWakeupTimer (ret : ℤ)
  | ioWakeupTimer (high : List ℕ) (resume : ℤ)
  | msgWakeupTimer (suspend : ℤ)
  deriving DecidableEq

/-- A timer fires only while it is armed. -/
def lpmStep (s : LpmSys) : LpmAct → Option LpmSys
  | .start suspend => some (genieLpmStart s suspend)
  | .enable force suspend => some (genieLpmEnable s force suspend).2
  | .disable resume => some (genieLpmDisable s resume).2
  | .mesg m resume => some (genieLpmHandleModelMesg s m resume)
  | .ioWakeup => some (genieLpmIoWakeupHandler s)
  | .delaySleepTimer suspend =>
    if s.delaySleepTimer.armed then
      some (genieLpmDelaySleepTimerIrqHandler
        { s with delaySleepTimer := s.delaySleepTimer.fired } suspend)
    else none
  | .glpWakeupTimer ret =>
    if s.glpWakeupTimer.armed then
      some (genieLpmGlpTimerIrqHandler { s with glpWakeupTimer := s.glpWakeupTimer.fired } ret)
    else none
  | .ioWakeupTimer high resume =>
    if s.ioWakeupTimer.armed then
      some (genieLpmIoWakeupTimerHandler
        { s with ioWakeupTimer := s.ioWakeupTimer.fired } high resume)
    else none
  | .msgWakeupTimer suspend =>
    if s.msgWakeupTimer.armed then
      some (genieLpmMsgTimerCb { s with msgWakeupTimer := s.msgWakeupTimer.fired } suspend)
    else none

end GenieSdk.Model
