import GenieSdk.Model.SigModel

/-!
# The times of a transition

The divisions of `sig_model_transition_update`, and the time that a status message reports. An uptime
is an integer in milliseconds; `trans_start_time` and `trans_end_time` keep 32 bits of it.
-/

set_option autoImplicit false

namespace GenieSdk.Model

/-- `TRANSITION_TIME_VALUE_MAX` -/
def transitionTimeValueMax : UInt32 := 0x3E

/-- The 16 bits of `step`. SRCLINE: sig_model_transition.c:35 -/
def transitionStep (elem : SigElem) (now : UInt32) : ℕ :=
  ((elem.transEndTime - now) / sigModelTransitionInterval).toNat % 2 ^ 16

/-- What `sig_model_transition_update` divides by, in the order of the divisions: whichever way a
quantity goes, its cycle starts with one. SRCLINE: sig_model_transition.c:32-118 -/
def transitionDivisors (elem : SigElem) (now : UInt32) : List ℕ :=
  if now ≤ elem.transEndTime - sigModelTransitionInterval then
    let step := transitionStep elem now
    (if elem.lightness.present ≠ elem.lightness.target then [step] else []) ++
      (if elem.colorTemperature.present ≠ elem.colorTemperature.target then [step] else [])
  else []

/-- `TRANSITION_TIME_UNIT_BIT` -/
def transitionTimeUnitBit (i : ℕ) : UInt8 := UInt8.ofNat i <<< 6

/-- SRCLINE: sig_model_transition.c:195-217 -/
def getTransitionByte (time : UInt32) : UInt8 :=
  if transTimes 3 * transitionTimeValueMax < time then 0
  else if transTimes 2 * transitionTimeValueMax < time then
    (time / transTimes 3).toUInt8 ||| transitionTimeUnitBit 3
  else if transTimes 1 * transitionTimeValueMax < time then
    (time / transTimes 2).toUInt8 ||| transitionTimeUnitBit 2
  else if transTimes 0 * transitionTimeValueMax < time then
    (time / transTimes 1).toUInt8 ||| transitionTimeUnitBit 1
  else (time / transTimes 0).toUInt8

/-- The elapsed time is taken from 0, not from `cur_time`. The difference is an `int64_t`, of which the
encoder gets 32 bits. SRCLINE: sig_model_transition.c:231-254 -/
def sigModelTransitionGetRemainTimeByte (elem : SigElem) (isAck : Bool) (curTime : ℤ) : UInt8 :=
  if isAck = false ∧ (elem.transStartTime.toNat : ℤ) < curTime then
    let passedTime : ℤ := 0 - elem.transStartTime.toNat
    let transDuration : ℤ := (sigModelTransitionGetTransitionTime elem.trans).toNat
    if passedTime < transDuration then
      getTransitionByte (UInt32.ofNat (transDuration - passedTime).toNat)
    else 0
  else elem.trans

end GenieSdk.Model
