import GenieSdk.Model.Bitmap
import GenieSdk.Model.BufQueue

/-!
# Tickless idle

`cpu_tickless.c` on one CPU (`CPUS_NUM_MAX` is 1): how `tickless_enter` picks a C-state and the time for its
one-shot timer, and how `tickless_exit` turns the time that has passed into ticks. What a board's timer
routines return is part of the action. `log` records what is done to the timers, the tick and the CPU; no
function reads it.
-/

set_option autoImplicit false

namespace GenieSdk.Model

/-- `one_shot_timer_t`: what `one_shot_seconds_max` returns, none if the board has no such routine. -/
structure OneShotTimer where
  oneShotSecondsMax : Option UInt32
  deriving DecidableEq

inductive TicklessEvent
  | oneShotStart (sleepTime cState : ℕ)
  | systickSuspend
  | cStateSet (cState : ℕ)
  | oneShotStop (passedMicroSec : ℕ)
  | announce (nTicks : ℕ)
  | systickResume
  deriving DecidableEq

/-- `cStateConfig`, `cStateLatency` (one entry for each of C0 to C31), `cStateOneShotTimer` with
`CPU_CSTATE_MAX` entries, `c_state_entered`, `is_current_tickless`, and the static `us_remain` of
`tickless_one_shot_stop`. -/
structure Tickless where
  cStateConfig : UInt32
  cStateLatency : ℕ → UInt32
  cStateOneShotTimer : Vector (Option OneShotTimer) 31
  cStateEntered : ℕ
  isCurrentTickless : Bool
  usRemain : ℕ
  log : List TicklessEvent

/-- `TIME_100_YEARS_IN_US` -/
def time100YearsInUs : ℕ := 0xB342EB7C38000

/-! ## Entering -/

/-- The time to the next kernel event. `tps` is `RHINO_CONFIG_TICKS_PER_SECOND`.
SRCLINE: cpu_tickless.c:257-261 -/
def sleepTimeUs (tps : ℕ) (nTicks : UInt64) : ℕ :=
  if nTicks.toNat = rhinoWaitForever then time100YearsInUs
  else 1000000 * nTicks.toNat % 2 ^ 64 / tps

/-- "get max valid Cx from cstate_cfg". SRCLINE: cpu_tickless.c:263-268 -/
def maxCState (cStateCfg : ℕ) : ℕ :=
  if cStateCfg = 0 then 0 else 31 - (krhinoFindFirstBit [cStateCfg]).getD 0

/-- The loop that looks for a C-state whose latency is less than the idle time, from the deepest one on; none
if the rounds do not suffice. SRCLINE: cpu_tickless.c:263-289 -/
def scanCStates (latency : ℕ → UInt32) (sleepTime : ℕ) : ℕ → ℕ → Option ℕ
  | 0, _ => none
  | rounds + 1, cStateCfg =>
    let cState := maxCState cStateCfg
    if cState = 0 then some 0
    else if (latency cState).toNat < sleepTime then some cState
    else scanCStates latency sleepTime rounds (cStateCfg &&& (0xFFFFFFFF ^^^ 2 ^ cState))

/-- `1000000 * one_shot_seconds_max()` is a product of 32 bits. SRCLINE: cpu_tickless.c:291-297 -/
def oneShotMaxUsSupport (timer : Option OneShotTimer) : ℕ :=
  ((timer.bind OneShotTimer.oneShotSecondsMax).map fun secs => 1000000 * secs.toNat % 2 ^ 32).getD 0

/-- The sleep time and the C-state to set, which stays `cStateToSet` if the loop finds none. None if the
timer of C31 is read: `cStateOneShotTimer` ends at C30. SRCLINE: cpu_tickless.c:246-310 -/
def ticklessEnterCheck (tps : ℕ) (s : Tickless) (nTicks : UInt64) (cStateToSet : ℕ) : Option (ℕ × ℕ) :=
  (scanCStates s.cStateLatency (sleepTimeUs tps nTicks) 32 s.cStateConfig.toNat).bind fun cState =>
    (s.cStateOneShotTimer[cState]?).map fun timer =>
      let sleepTime :=
        if sleepTimeUs tps nTicks > oneShotMaxUsSupport timer then oneShotMaxUsSupport timer
        else sleepTimeUs tps nTicks
      ((sleepTime + 2 ^ 64 - (s.cStateLatency cState).toNat) % 2 ^ 64,
        if cState = 0 then cStateToSet else cState)

/-- None if there is no timer to start; `ret` is whether its routine returns `PWR_OK`.
SRCLINE: cpu_tickless.c:160-171 -/
def ticklessOneShotStart (s : Tickless) (sleepTime cState : ℕ) (ret : Bool) : Option (Bool × Tickless) :=
  (s.cStateOneShotTimer[cState]?).join.map fun _ =>
    (ret, { s with log := s.log ++ [.oneShotStart sleepTime cState] })

/-- SRCLINE: cpu_tickless.c:317-375 -/
def ticklessEnter (tps : ℕ) (s : Tickless) (nTicks : UInt64) (ret : Bool) : Option Tickless :=
  (ticklessEnterCheck tps s nTicks 1).bind fun check =>
    let started :=
      if 0 < check.1 && !s.isCurrentTickless then
        (ticklessOneShotStart s check.1 check.2 ret).map fun start =>
          if start.1 then { start.2 with isCurrentTickless := true } else start.2
      else some s
    started.map fun s =>
      let s := { s with cStateEntered := check.2 }
      if s.isCurrentTickless then { s with log := s.log ++ [.systickSuspend, .cStateSet check.2] } else s

/-! ## Leaving -/

/-- `us_per_tick` -/
def usPerTick (tps : ℕ) : ℕ := 1000000 / tps

/-- The ticks that have passed and the new `us_remain`; both are of 64 bits.
SRCLINE: cpu_tickless.c:186-197 -/
def ticksPassed (tps usRemain passedMicroSec : ℕ) : ℕ × ℕ :=
  let nTicks := passedMicroSec * tps % 2 ^ 64 / 1000000
  let usRemain := (usRemain + passedMicroSec % usPerTick tps) % 2 ^ 64
  if usRemain ≥ usPerTick tps then ((nTicks + 1) % 2 ^ 64, usRemain - usPerTick tps) else (nTicks, usRemain)

/-- `passed` is what the timer's routine stores, none if it does not return `PWR_OK`. None if there is no
timer to stop. SRCLINE: cpu_tickless.c:173-198 -/
def ticklessOneShotStop (tps : ℕ) (s : Tickless) (cState : ℕ) (passed : Option UInt64) :
    Option (ℕ × Tickless) :=
  (s.cStateOneShotTimer[cState]?).join.map fun _ =>
    match passed with
    | none => (0, s)
    | some us =>
      ((ticksPassed tps s.usRemain us.toNat).1,
        { s with
          usRemain := (ticksPassed tps s.usRemain us.toNat).2
          log := s.log ++ [.oneShotStop us.toNat] })

/-- SRCLINE: cpu_tickless.c:415-418 -/
def ticklessAnnounceN (s : Tickless) (nTicks : ℕ) : Tickless :=
  { s with log := s.log ++ [.announce nTicks] }

/-- SRCLINE: cpu_tickless.c:385-413 -/
def ticklessExit (tps : ℕ) (s : Tickless) (passed : Option UInt64) : Option Tickless :=
  if s.isCurrentTickless then
    (ticklessOneShotStop tps s s.cStateEntered passed).map fun stop =>
      let s := { stop.2 with isCurrentTickless := false }
      let s := if 0 < stop.1 then ticklessAnnounceN s stop.1 else s
      { s with log := s.log ++ [.systickResume] }
  else some s

/-! ## Runs -/

/-- The statics after `tickless_init`. -/
def ticklessInit (cStateConfig : UInt32) (cStateLatency : ℕ → UInt32)
    (cStateOneShotTimer : Vector (Option OneShotTimer) 31) : Tickless :=
  { cStateConfig, cStateLatency, cStateOneShotTimer, cStateEntered := 0, isCurrentTickless := false
    usRemain := 0, log := [] }

inductive TicklessAct
  | enter (nTicks : UInt64) (ret : Bool)
  | exit (passed : Option UInt64)
  deriving DecidableEq

/-- An idle period: the CPU goes tickless, and `passed` us later it wakes up. -/
def idlePeriod (nTicks passed : UInt64) : List TicklessAct := [.enter nTicks true, .exit (some passed)]

def ticklessStep (tps : ℕ) (s : Tickless) : TicklessAct → Option Tickless
  | .enter nTicks ret => ticklessEnter tps s nTicks ret
  | .exit passed => ticklessExit tps s passed

end GenieSdk.Model
