import GenieSdk.Model.GenieLpm

/-!
# Low power on a clock

The system of `genie_lpm.c` with the time, in milliseconds, and with the times at which `delay_sleep_timer`
and `msg_wakeup_timer` are over. A timer that is over may be served later, never earlier; of the other two
timers it is not said when they fire. With it come the answers to attribute messages.
-/

set_option autoImplicit false

namespace GenieSdk.Model

structure LpmClock where
  sys : LpmSys
  now : ℕ
  delaySleepDue : ℕ
  msgWakeupDue : ℕ
  deriving DecidableEq

/-- Whether the action starts `delay_sleep_timer`. A timer that is armed is not started again, unless it has
been stopped before. -/
def startsDelaySleep (s : LpmSys) : LpmAct → Bool
  | .start suspend =>
    s.config.isAutoEnable &&
      if 0 < s.config.delaySleepTime then !s.delaySleepTimer.armed else !retOk suspend
  | .enable _ suspend => !retOk suspend
  | .delaySleepTimer suspend => !retOk suspend
  | .msgWakeupTimer suspend => !retOk suspend
  | _ => false

/-- Whether the message starts `msg_wakeup_timer`. -/
def mesgStartsMsgWakeup (s : LpmSys) (m : LpmMesg) (resume : ℤ) : Bool :=
  s.config.lpmWakeupMsg && (m.opid = vendorOpAttrSetUnack ∨ m.opid = vendorOpAttrSetAck) &&
    if m.attrType = msgAttrTypeActiveWakeup then s.msgLpmDisable || retOk resume
    else m.attrType = msgAttrTypeEnterSleep && s.msgLpmDisable

/-- Whether the action starts `msg_wakeup_timer`. -/
def startsMsgWakeup (s : LpmSys) : LpmAct → Bool
  | .mesg m resume => mesgStartsMsgWakeup s m resume
  | .msgWakeupTimer suspend => !retOk suspend
  | _ => false

/-- When `delay_sleep_timer` is over after the action; a periodic timer goes on from the time it was
served. -/
def delaySleepDueAfter (t : LpmClock) (a : LpmAct) (s' : LpmSys) : ℕ :=
  if startsDelaySleep t.sys a then t.now + s'.delaySleepTimer.initCount
  else
    match a with
    | .delaySleepTimer _ => t.now + s'.delaySleepTimer.roundTicks
    | _ => t.delaySleepDue

/-- The time of the timer that fires is over. -/
def isDue (t : LpmClock) : LpmAct → Bool
  | .delaySleepTimer _ => t.delaySleepDue ≤ t.now
  | .msgWakeupTimer _ => t.msgWakeupDue ≤ t.now
  | _ => true

inductive LpmClockAct
  | pass (ms : ℕ)
  | act (a : LpmAct)
  deriving DecidableEq

def lpmClockStep (t : LpmClock) : LpmClockAct → Option LpmClock
  | .pass ms => some { t with now := t.now + ms }
  | .act a =>
    if isDue t a then
      (lpmStep t.sys a).map fun s' =>
        { sys := s', now := t.now, delaySleepDue := delaySleepDueAfter t a s'
          msgWakeupDue :=
            if startsMsgWakeup t.sys a then t.now + s'.msgWakeupTimer.initCount else t.msgWakeupDue }
    else none

def lpmClockInit (conf : LpmConf) : LpmClock :=
  { sys := genieLpmInit conf, now := 0, delaySleepDue := 0, msgWakeupDue := 0 }

/-! ## Answers -/

/-- The payload; `attr_time` is an `uint16_t`. SRCLINE: genie_lpm.c:234-262 -/
def genieLpmMsgStatusAck (attrType attrTime : ℕ) : List UInt8 :=
  [UInt8.ofNat (attrType % 256), UInt8.ofNat (attrType / 256), UInt8.ofNat (attrTime % 256),
    UInt8.ofNat (attrTime / 256)]

/-- The payload of the answer to a message. SRCLINE: genie_lpm.c:264-346 -/
def genieLpmMesgAck (s : LpmSys) (m : LpmMesg) : Option (List UInt8) :=
  if s.config.lpmWakeupMsg = false then none
  else if m.opid = vendorOpAttrSetAck then
    if m.attrType = msgAttrTypeActiveWakeup then
      some (genieLpmMsgStatusAck m.attrType (activeTime m.attrTime))
    else if m.attrType = msgAttrTypeEnterSleep then
      some (genieLpmMsgStatusAck m.attrType (sleepTime m.opid m.attrTime))
    else none
  else none

end GenieSdk.Model
