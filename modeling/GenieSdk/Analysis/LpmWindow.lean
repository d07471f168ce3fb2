import GenieSdk.Analysis.LpmCycle
import GenieSdk.Model.LpmClock

/-!
# Active windows

An active window holds while low power stays disabled and `msg_wakeup_timer` is not over before its end
(`WindowKept`). The window is asked for in seconds and kept in 16 bits of milliseconds, a running
`delay_sleep_timer` is not stopped by a message, and a message that comes while `msg_lpm_disable` is set does
not disable again. **Every window is honoured in a run in which no message asks for more than 65 seconds,
`delay_sleep_timer` puts the node to sleep in no window, and a message that finds `msg_lpm_disable` set finds
low power disabled** (`active_window_honoured`).
-/

set_option autoImplicit false

namespace GenieSdk.Analysis.Window

open GenieSdk.Lib GenieSdk.Model

/-! ## What is claimed -/

/-- The seconds that a message asks for. -/
def seconds (m : LpmMesg) : ℕ := m.data.getD 2 0 + 256 * m.data.getD 3 0

/-- The window that a message asks for, in milliseconds. -/
def requestedMs (m : LpmMesg) : ℕ :=
  if seconds m = 0 then msgActiveTimeDefault else max (1000 * seconds m) msgActiveTimeMin

/-- A message that asks for a window and gets it. -/
def OpensWindow (s : LpmSys) (m : LpmMesg) (resume : ℤ) : Prop :=
  mesgStartsMsgWakeup s m resume = true ∧ m.attrType = msgAttrTypeActiveWakeup

instance (s : LpmSys) (m : LpmMesg) (resume : ℤ) : Decidable (OpensWindow s m resume) :=
  inferInstanceAs (Decidable (_ ∧ _))

/-- The system, and the end of the window that was asked for last. -/
structure Watched where
  clock : LpmClock
  windowEnd : ℕ
  deriving DecidableEq

def windowEndAfter (w : Watched) : LpmClockAct → ℕ
  | .act (.mesg m resume) =>
    if OpensWindow w.clock.sys m resume then w.clock.now + requestedMs m else w.windowEnd
  | _ => w.windowEnd

def watchedStep (w : Watched) (a : LpmClockAct) : Option Watched :=
  (lpmClockStep w.clock a).map fun t => { clock := t, windowEnd := windowEndAfter w a }

def watchedInit (conf : LpmConf) : Watched := { clock := lpmClockInit conf, windowEnd := 0 }

/-- No message to enter sleep, and no other caller of `genie_lpm_enable`. -/
def WindowCall : LpmClockAct → Prop
  | .act (.enable _ _) => False
  | .act (.mesg m _) => m.attrType ≠ msgAttrTypeEnterSleep
  | _ => True

instance : DecidablePred WindowCall := fun a =>
  match a with
  | .pass _ => isTrue trivial
  | .act (.enable _ _) => isFalse id
  | .act (.mesg m _) => inferInstanceAs (Decidable (m.attrType ≠ msgAttrTypeEnterSleep))
  | .act (.start _) => isTrue trivial
  | .act (.disable _) => isTrue trivial
  | .act .ioWakeup => isTrue trivial
  | .act (.delaySleepTimer _) => isTrue trivial
  | .act (.glpWakeupTimer _) => isTrue trivial
  | .act (.ioWakeupTimer _ _) => isTrue trivial
  | .act (.msgWakeupTimer _) => isTrue trivial

/-- The time in an answer. -/
def ackedMs (payload : List UInt8) : ℕ := (payload.getD 2 0).toNat + 256 * (payload.getD 3 0).toNat

/-- **What is claimed.** In a window the node is awake, and the window that a message opens is the one that
it is answered with. -/
structure WindowHonoured (w : Watched) : Prop where
  awake : w.clock.now < w.windowEnd → w.clock.sys.status = .wakeup
  acked : ∀ m resume payload, OpensWindow w.clock.sys m resume →
    genieLpmMesgAck w.clock.sys m = some payload →
    (genieLpmHandleModelMesg w.clock.sys m resume).msgWakeupTimer.armed = true →
    (genieLpmHandleModelMesg w.clock.sys m resume).msgWakeupTimer.initCount = ackedMs payload

/-- **The condition.** A message that opens a window asks for at most 65 seconds and finds low power disabled if
`msg_lpm_disable` is set, and neither `delay_sleep_timer` nor `genie_lpm_start`, which enables at once where there
is no delay, puts the node to sleep in a window. -/
def WindowOk (w : Watched) : LpmClockAct → Prop
  | .act (.mesg m resume) => OpensWindow w.clock.sys m resume →
    seconds m ≤ 65 ∧ (w.clock.sys.msgLpmDisable = true → w.clock.sys.hasDisabled = true)
  | .act (.delaySleepTimer suspend) => retOk suspend = true → w.windowEnd ≤ w.clock.now
  | .act (.start suspend) =>
    w.clock.sys.config.isAutoEnable = true → w.clock.sys.config.delaySleepTime = 0 →
      retOk suspend = true → w.windowEnd ≤ w.clock.now
  | _ => True

/-! ## The time of a window -/

/-- Up to 65 seconds fit into 16 bits of milliseconds. -/
theorem activeTime_attrTime {m : LpmMesg} (h : seconds m ≤ 65) :
    activeTime m.attrTime = requestedMs m := by
  have hattr : m.attrTime = 1000 * seconds m := by
    unfold LpmMesg.attrTime seconds at *
    omega
  unfold activeTime requestedMs
  rw [hattr]
  generalize seconds m = n at *
  unfold msgActiveTimeMin msgActiveTimeDefault
  simp only
  split_ifs <;> omega

/-- A window has at least one millisecond and fits into 16 bits. -/
theorem activeTime_bounds (m : LpmMesg) :
    0 < activeTime m.attrTime ∧ activeTime m.attrTime < 2 ^ 16 := by
  have hattr : m.attrTime < 2 ^ 16 := Nat.mod_lt _ (by decide)
  unfold activeTime msgActiveTimeMin msgActiveTimeDefault
  simp only
  split_ifs <;> omega

/-- The answer has the time that it is made with. -/
theorem ackedMs_genieLpmMsgStatusAck (attrType : ℕ) {attrTime : ℕ} (h : attrTime < 2 ^ 16) :
    ackedMs (genieLpmMsgStatusAck attrType attrTime) = attrTime := by
  have hhigh : attrTime / 256 < 256 := by omega
  simp [ackedMs, genieLpmMsgStatusAck, UInt8.toNat_ofNat', Nat.mod_eq_of_lt hhigh]
  omega

section Timer

variable {t : AosTimer} {n : ℕ}

/-- The time of a timer that is stopped, changed and started. -/
theorem changeOnce_initCount (hhdl : t.hdl = true) (hstopped : t.armed = false) (hpos : 0 < n)
    (hn : n < 2 ^ 16) : (t.changeOnce n).initCount = n := by
  have htick : ms2tick n = n := by
    unfold ms2tick
    rw [Nat.mod_eq_of_lt (by omega)]
    simp only
    rw [if_pos (by omega)]
  unfold AosTimer.changeOnce AosTimer.changeTicks
  rw [htick, if_neg (by simp [hhdl]), if_neg (by unfold maxTimerTicks; omega), if_neg (by simp [hstopped])]

/-- Starting a timer leaves its time. -/
theorem start_initCount (t : AosTimer) : t.start.initCount = t.initCount := by
  unfold AosTimer.start
  split <;> rfl

end Timer

/-! ## The invariant -/

/-- **What holds along every run whose steps meet the condition.** -/
structure WindowKept (w : Watched) : Prop where
  handled : Handled w.clock.sys.msgWakeupTimer
  disabled : w.clock.sys.hasDisabled = true → w.clock.sys.status = .wakeup
  awake : w.clock.now < w.windowEnd → w.clock.sys.hasDisabled = true
  due : w.clock.sys.msgWakeupTimer.armed = true → w.windowEnd ≤ w.clock.msgWakeupDue

/-- The step does not touch `msg_wakeup_timer`, and low power stays disabled if it was. -/
structure KeepsAwake (s s' : LpmSys) : Prop where
  timer : s'.msgWakeupTimer = s.msgWakeupTimer
  hasDisabled : s.hasDisabled = true → s'.hasDisabled = true
  disabled : (s.hasDisabled = true → s.status = .wakeup) → s'.hasDisabled = true → s'.status = .wakeup

section Steps

variable {s : LpmSys}

/-- Nothing is done. -/
theorem KeepsAwake.refl (s : LpmSys) : KeepsAwake s s := ⟨rfl, id, id⟩

/-- Two steps that keep the node awake. -/
theorem KeepsAwake.trans {s' s'' : LpmSys} (h : KeepsAwake s s') (h' : KeepsAwake s' s'') :
    KeepsAwake s s'' :=
  ⟨h'.timer.trans h.timer, fun hd => h'.hasDisabled (h.hasDisabled hd),
    fun hd => h'.disabled (h.disabled hd)⟩

/-- Recording an event keeps the node awake. -/
theorem keepsAwake_record (s : LpmSys) (e : LpmEvent) : KeepsAwake s (s.record e) := ⟨rfl, id, id⟩

/-- So does the callback of the application. -/
theorem keepsAwake_callback (s : LpmSys) (reason : LpmWakeupReason) (list : List LpmIoStatus) :
    KeepsAwake s (s.callback reason list) := by
  unfold LpmSys.callback
  split
  · exact keepsAwake_record s _
  · exact .refl s

/-- And waking up. -/
theorem keepsAwake_wakeup (s : LpmSys) : KeepsAwake s { s with status := .wakeup } :=
  ⟨rfl, id, fun _ _ => rfl⟩

/-- A disable that goes well leaves the node awake. -/
theorem genieLpmDisable_ok {resume : ℤ} (hret : retOk resume = true) :
    (genieLpmDisable s resume).2.hasDisabled = true ∧ (genieLpmDisable s resume).2.status = .wakeup := by
  unfold genieLpmDisable
  simp only [hret, if_true]
  split <;> exact ⟨rfl, rfl⟩

/-- One that fails changes nothing but the log. -/
theorem genieLpmDisable_fail {resume : ℤ} (hret : retOk resume = false) :
    (genieLpmDisable s resume).2 = s.record (.disabled (retOf resume)) := by
  simp [genieLpmDisable, hret]

/-- A disable leaves `msg_wakeup_timer`. -/
theorem genieLpmDisable_timer (s : LpmSys) (resume : ℤ) :
    (genieLpmDisable s resume).2.msgWakeupTimer = s.msgWakeupTimer := by
  cases hret : retOk resume with
  | true =>
    unfold genieLpmDisable LpmSys.record
    simp only [hret, if_true]
    split <;> rfl
  | false =>
    rw [genieLpmDisable_fail hret]
    rfl

/-- A disable keeps the node awake. -/
theorem keepsAwake_disable (s : LpmSys) (resume : ℤ) : KeepsAwake s (genieLpmDisable s resume).2 := by
  cases hret : retOk resume with
  | true => exact ⟨genieLpmDisable_timer s resume, fun _ => (genieLpmDisable_ok hret).1,
      fun _ _ => (genieLpmDisable_ok hret).2⟩
  | false =>
    rw [genieLpmDisable_fail hret]
    exact keepsAwake_record s _

/-- So does an enable that fails. -/
theorem keepsAwake_enable_fail (s : LpmSys) (force : Bool) {suspend : ℤ} (hret : retOk suspend = false) :
    KeepsAwake s (genieLpmEnable s force suspend).2 := by
  rw [genieLpmEnable_fail force hret]
  exact ⟨rfl, id, id⟩

/-- An enable that goes well ends the disabled state and leaves `msg_wakeup_timer`. -/
theorem genieLpmEnable_ok' (s : LpmSys) (force : Bool) {suspend : ℤ} (hret : retOk suspend = true) :
    (genieLpmEnable s force suspend).2.hasDisabled = false ∧
      (genieLpmEnable s force suspend).2.msgWakeupTimer = s.msgWakeupTimer := by
  unfold genieLpmEnable LpmSys.record LpmSys.rearmGlp
  simp only [hret, if_true]
  split
  · split <;> exact ⟨rfl, rfl⟩
  · exact ⟨rfl, rfl⟩

/-- `glp_wakeup_timer` keeps a node awake whose low power is disabled. -/
theorem keepsAwake_glp (s : LpmSys) (ret : ℤ) :
    KeepsAwake s (genieLpmGlpTimerIrqHandler { s with glpWakeupTimer := s.glpWakeupTimer.fired } ret) := by
  by_cases hd : s.hasDisabled = true
  · unfold genieLpmGlpTimerIrqHandler
    rw [if_pos hd]
    exact ⟨rfl, id, id⟩
  · rcases glpTimer_cases { s with glpWakeupTimer := s.glpWakeupTimer.fired } ret with
      ⟨hdis, -⟩ | ⟨u, ms, heq, -, -, hdis, -, -, hmsg⟩
    · exact absurd hdis hd
    · rw [heq]
      exact ⟨hmsg, fun h => absurd h hd, fun _ h => absurd (hdis.symm.trans h) hd⟩

/-- So does `io_wakeup_timer`. -/
theorem keepsAwake_io (s : LpmSys) (high : List ℕ) (resume : ℤ) :
    KeepsAwake s (genieLpmIoWakeupTimerHandler { s with ioWakeupTimer := s.ioWakeupTimer.fired } high resume) := by
  have hfired : KeepsAwake s { s with ioWakeupTimer := s.ioWakeupTimer.fired } := ⟨rfl, id, id⟩
  refine hfired.trans ?_
  generalize { s with ioWakeupTimer := s.ioWakeupTimer.fired } = t
  unfold genieLpmIoWakeupTimerHandler
  split
  · exact .refl t
  · simp only
    split
    · split
      · split
        · exact (keepsAwake_wakeup t).trans (keepsAwake_callback _ _ _)
        · exact .refl t
      · exact keepsAwake_callback t _ _
    · exact .refl t

/-! ## Messages -/

/-- Which messages open a window. -/
theorem opensWindow_iff {m : LpmMesg} {resume : ℤ} : OpensWindow s m resume ↔
    s.config.lpmWakeupMsg = true ∧ (m.opid = vendorOpAttrSetUnack ∨ m.opid = vendorOpAttrSetAck) ∧
      m.attrType = msgAttrTypeActiveWakeup ∧ (s.msgLpmDisable = true ∨ retOk resume = true) := by
  unfold OpensWindow mesgStartsMsgWakeup
  by_cases hactive : m.attrType = msgAttrTypeActiveWakeup
  · simp [hactive, and_assoc]
  · simp [hactive]

/-- A message that asks for a window. -/
theorem handle_active {m : LpmMesg} {resume : ℤ} (hconf : s.config.lpmWakeupMsg = true)
    (hopid : m.opid = vendorOpAttrSetUnack ∨ m.opid = vendorOpAttrSetAck)
    (hactive : m.attrType = msgAttrTypeActiveWakeup) :
    genieLpmHandleModelMesg s m resume = (genieLpmMsgActive s (activeTime m.attrTime) resume).2 := by
  unfold genieLpmHandleModelMesg
  rw [if_neg (by simp [hconf]), if_pos hopid, if_pos hactive]

/-- With `msg_lpm_disable` set a window only arms the timer. -/
theorem genieLpmMsgActive_set (hset : s.msgLpmDisable = true) (ms : ℕ) (resume : ℤ) :
    (genieLpmMsgActive s ms resume).2 = s.rearmMsg ms := by
  unfold genieLpmMsgActive
  rw [if_neg (by simp [hset])]

/-- Otherwise low power is disabled first. -/
theorem genieLpmMsgActive_ok (hset : s.msgLpmDisable = false) (ms : ℕ) {resume : ℤ}
    (hret : retOk resume = true) : (genieLpmMsgActive s ms resume).2 =
      { (genieLpmDisable s resume).2 with msgLpmDisable := true }.rearmMsg ms := by
  have hzero : (genieLpmDisable s resume).1 = 0 := (retOf_eq_zero resume).2 hret
  unfold genieLpmMsgActive
  rw [if_pos hset]
  simp only
  rw [if_neg (by simp [hzero])]

/-- And if that fails there is no window. -/
theorem genieLpmMsgActive_fail (hset : s.msgLpmDisable = false) (ms : ℕ) {resume : ℤ}
    (hret : retOk resume = false) :
    (genieLpmMsgActive s ms resume).2 = (genieLpmDisable s resume).2 := by
  have hne : (genieLpmDisable s resume).1 ≠ 0 := fun h => by simp [(retOf_eq_zero resume).1 h] at hret
  unfold genieLpmMsgActive
  rw [if_pos hset]
  simp only
  rw [if_pos hne]

/-- A window begins with low power disabled. -/
theorem mesg_disabled {m : LpmMesg} {resume : ℤ} (hopens : OpensWindow s m resume)
    (hok : s.msgLpmDisable = true → s.hasDisabled = true ∧ s.status = .wakeup) :
    (genieLpmHandleModelMesg s m resume).hasDisabled = true ∧
      (genieLpmHandleModelMesg s m resume).status = .wakeup := by
  obtain ⟨hconf, hopid, hactive, hgets⟩ := opensWindow_iff.1 hopens
  rw [handle_active hconf hopid hactive]
  cases hset : s.msgLpmDisable with
  | true =>
    rw [genieLpmMsgActive_set hset]
    exact hok hset
  | false =>
    have hret : retOk resume = true := hgets.resolve_left (by simp [hset])
    rw [genieLpmMsgActive_ok hset _ hret]
    exact genieLpmDisable_ok hret

/-- A window begins with its timer. -/
theorem mesg_timer {m : LpmMesg} {resume : ℤ} (hopens : OpensWindow s m resume) :
    (genieLpmHandleModelMesg s m resume).msgWakeupTimer =
      (s.msgWakeupTimer.stop.changeOnce (activeTime m.attrTime)).start := by
  obtain ⟨hconf, hopid, hactive, hgets⟩ := opensWindow_iff.1 hopens
  rw [handle_active hconf hopid hactive]
  cases hset : s.msgLpmDisable with
  | true =>
    rw [genieLpmMsgActive_set hset]
    rfl
  | false =>
    have hret : retOk resume = true := hgets.resolve_left (by simp [hset])
    rw [genieLpmMsgActive_ok hset _ hret]
    unfold LpmSys.rearmMsg
    simp only
    rw [genieLpmDisable_timer]

/-- A message that opens no window. -/
theorem mesg_other {m : LpmMesg} {resume : ℤ} (hopens : ¬ OpensWindow s m resume)
    (hsleep : m.attrType ≠ msgAttrTypeEnterSleep) :
    KeepsAwake s (genieLpmHandleModelMesg s m resume) := by
  unfold genieLpmHandleModelMesg
  split
  case isTrue => exact .refl s
  case isFalse hconf =>
    split
    case isFalse => exact .refl s
    case isTrue hopid =>
      split
      case isFalse => exact .refl s
      case isTrue hactive =>
        have hnot : ¬ (s.msgLpmDisable = true ∨ retOk resume = true) := fun h =>
          hopens (opensWindow_iff.2 ⟨by simpa using hconf, hopid, hactive, h⟩)
        obtain ⟨hset, hret⟩ := not_or.1 hnot
        rw [genieLpmMsgActive_fail (by simpa using hset) _ (by simpa using hret)]
        exact keepsAwake_disable s resume

end Steps

/-! ## Steps -/

section Runs

variable {w w' : Watched}

/-- A step that neither opens a window nor ends one. -/
theorem WindowKept.frame (h : WindowKept w) (hkeeps : KeepsAwake w.clock.sys w'.clock.sys)
    (hnow : w.clock.now ≤ w'.clock.now) (hend : w'.windowEnd = w.windowEnd)
    (hdue : w'.clock.msgWakeupDue = w.clock.msgWakeupDue) : WindowKept w' := by
  refine ⟨?_, hkeeps.disabled h.disabled, ?_, ?_⟩
  · rw [hkeeps.timer]
    exact h.handled
  · intro hlt
    exact hkeeps.hasDisabled (h.awake (by omega))
  · rw [hkeeps.timer, hend, hdue]
    exact h.due

/-- An enable behind the end of the window. -/
theorem WindowKept.enabled (h : WindowKept w) {t : LpmSys} (hsys : t.hasDisabled = false)
    (htimer : t.msgWakeupTimer = w.clock.sys.msgWakeupTimer) (hend : w.windowEnd ≤ w.clock.now) (due : ℕ) :
    WindowKept { clock := { w.clock with sys := t, delaySleepDue := due }, windowEnd := w.windowEnd } := by
  refine ⟨?_, fun hd => ?_, fun hlt => absurd hlt (Nat.not_lt.2 hend), ?_⟩
  · change Handled t.msgWakeupTimer
    rw [htimer]
    exact h.handled
  · exact absurd (hsys.symm.trans hd) (by simp)
  · change t.msgWakeupTimer.armed = true → _
    rw [htimer]
    exact h.due

/-- A step of the system. -/
theorem watchedStep_act {a : LpmAct} (hstep : watchedStep w (.act a) = some w') :
    isDue w.clock a = true ∧ ∃ s', lpmStep w.clock.sys a = some s' ∧
      w' = { clock := { sys := s', now := w.clock.now, delaySleepDue := delaySleepDueAfter w.clock a s'
                        msgWakeupDue :=
                          if startsMsgWakeup w.clock.sys a then w.clock.now + s'.msgWakeupTimer.initCount
                          else w.clock.msgWakeupDue }
             windowEnd := windowEndAfter w (.act a) } := by
  unfold watchedStep lpmClockStep at hstep
  simp only at hstep
  split at hstep
  case isFalse => exact absurd hstep (by simp)
  case isTrue hdue =>
    obtain ⟨t, ht, rfl⟩ := Option.map_eq_some_iff.1 hstep
    obtain ⟨s', hs', rfl⟩ := Option.map_eq_some_iff.1 ht
    exact ⟨hdue, s', hs', rfl⟩

/-- At the start there is no window. -/
theorem windowKept_init (conf : LpmConf) : WindowKept (watchedInit conf) := by
  have hinit : (genieLpmInit conf).hasDisabled = false ∧
      ((genieLpmInit conf).msgWakeupTimer = .null ∨
        (genieLpmInit conf).msgWakeupTimer = (AosTimer.null.new msgActiveTimeDefault).stop) := by
    unfold genieLpmInit
    simp only
    split_ifs <;> simp
  refine ⟨?_, fun hd => ?_, fun hlt => absurd hlt (Nat.not_lt_zero _), fun _ => Nat.zero_le _⟩
  · change Handled (genieLpmInit conf).msgWakeupTimer
    rcases hinit.2 with hnull | hnew
    · rw [hnull]
      exact handled_null
    · rw [hnew]
      exact handled_null.new_stop _
  · exact absurd (hinit.1.symm.trans hd) (by simp)

/-- The callback of `msg_wakeup_timer` comes behind the end of the window. -/
theorem WindowKept.msgTimer (h : WindowKept w) {suspend : ℤ}
    (hstep : watchedStep w (.act (.msgWakeupTimer suspend)) = some w') : WindowKept w' := by
  obtain ⟨hdue, s', hs', rfl⟩ := watchedStep_act hstep
  simp only [lpmStep] at hs'
  split at hs'
  case isFalse => exact absurd hs' (by simp)
  case isTrue harmed =>
    cases hs'
    have hend : w.windowEnd ≤ w.clock.now := (h.due harmed).trans (by simpa [isDue] using hdue)
    have hhandled := h.handled.fired.stop
    have hhdl : w.clock.sys.msgWakeupTimer.fired.stop.hdl = true := by
      rw [stop_hdl, fired_hdl]
      exact h.handled harmed
    cases hret : retOk suspend with
    | true =>
      have hzero : (genieLpmEnable { w.clock.sys with
          msgWakeupTimer := w.clock.sys.msgWakeupTimer.fired.stop } false suspend).1 = 0 :=
        (retOf_eq_zero suspend).2 hret
      obtain ⟨hdis, htimer⟩ := genieLpmEnable_ok' { w.clock.sys with
        msgWakeupTimer := w.clock.sys.msgWakeupTimer.fired.stop } false hret
      have hcb : genieLpmMsgTimerCb { w.clock.sys with
          msgWakeupTimer := w.clock.sys.msgWakeupTimer.fired } suspend =
            { (genieLpmEnable { w.clock.sys with
                msgWakeupTimer := w.clock.sys.msgWakeupTimer.fired.stop } false suspend).2 with
              msgLpmDisable := false } := by
        unfold genieLpmMsgTimerCb
        simp only
        rw [if_neg (not_not.2 hzero)]
      rw [hcb]
      refine ⟨?_, fun hd => ?_, fun hlt => absurd hlt (Nat.not_lt.2 hend), ?_⟩
      · change Handled (genieLpmEnable _ false suspend).2.msgWakeupTimer
        rw [htimer]
        exact hhandled
      · exact absurd (hdis.symm.trans hd) (by simp)
      · change (genieLpmEnable _ false suspend).2.msgWakeupTimer.armed = true → _
        rw [htimer, stop_armed h.handled.fired]
        simp
    | false =>
      have hne : (genieLpmEnable { w.clock.sys with
          msgWakeupTimer := w.clock.sys.msgWakeupTimer.fired.stop } false suspend).1 ≠ 0 :=
        fun h0 => by simp [(retOf_eq_zero suspend).1 h0] at hret
      have hcount := changeOnce_initCount (n := msgCheckAgainTime) hhdl
        (stop_armed h.handled.fired) (by decide) (by decide)
      have hcb : genieLpmMsgTimerCb { w.clock.sys with
          msgWakeupTimer := w.clock.sys.msgWakeupTimer.fired } suspend =
            { (genieLpmEnable { w.clock.sys with
                msgWakeupTimer := w.clock.sys.msgWakeupTimer.fired.stop } false suspend).2 with
              msgWakeupTimer :=
                (w.clock.sys.msgWakeupTimer.fired.stop.changeOnce msgCheckAgainTime).start } := by
        unfold genieLpmMsgTimerCb
        simp only
        rw [if_pos hne, genieLpmEnable_fail false hret]
        rfl
      have hkeeps := keepsAwake_enable_fail { w.clock.sys with
        msgWakeupTimer := w.clock.sys.msgWakeupTimer.fired.stop } false hret
      have hstarts : startsMsgWakeup w.clock.sys (.msgWakeupTimer suspend) = true := by
        simp [startsMsgWakeup, hret]
      rw [hcb, hstarts, if_pos rfl]
      refine ⟨(hhandled.changeOnce _).start, hkeeps.disabled h.disabled,
        fun hlt => absurd hlt (Nat.not_lt.2 hend), fun _ => ?_⟩
      simp only
      rw [start_initCount, hcount]
      exact hend.trans (Nat.le_add_right _ _)

/-- The window is kept when a message comes. -/
theorem WindowKept.mesg (h : WindowKept w) {m : LpmMesg} {resume : ℤ}
    (hcall : m.attrType ≠ msgAttrTypeEnterSleep) (hok : WindowOk w (.act (.mesg m resume)))
    (hstep : watchedStep w (.act (.mesg m resume)) = some w') : WindowKept w' := by
  obtain ⟨-, s', hs', rfl⟩ := watchedStep_act hstep
  cases hs'
  by_cases hopens : OpensWindow w.clock.sys m resume
  · obtain ⟨hsec, hset⟩ := hok hopens
    obtain ⟨hdis, hwake⟩ := mesg_disabled hopens fun hmsg => ⟨hset hmsg, h.disabled (hset hmsg)⟩
    have htimer := mesg_timer hopens
    have hstarts : startsMsgWakeup w.clock.sys (.mesg m resume) = true := hopens.1
    obtain ⟨hpos, hlt⟩ := activeTime_bounds m
    refine ⟨?_, fun _ => hwake, fun _ => hdis, ?_⟩
    · simp only
      rw [htimer]
      exact (h.handled.stop.changeOnce _).start
    · simp only
      intro harmed
      rw [htimer, h.handled.rearm] at harmed
      have hcount := changeOnce_initCount (t := w.clock.sys.msgWakeupTimer.stop) (by rw [stop_hdl, harmed])
        (stop_armed h.handled) hpos hlt
      rw [hstarts, if_pos rfl, htimer, start_initCount, hcount, activeTime_attrTime hsec]
      unfold windowEndAfter
      simp only
      rw [if_pos hopens]
  · have hstarts : startsMsgWakeup w.clock.sys (.mesg m resume) = false := by
      unfold startsMsgWakeup
      by_contra hstarts
      have hstarts : mesgStartsMsgWakeup w.clock.sys m resume = true := by simpa using hstarts
      by_cases hactive : m.attrType = msgAttrTypeActiveWakeup
      · exact hopens ⟨hstarts, hactive⟩
      · simp [mesgStartsMsgWakeup, hactive, hcall] at hstarts
    refine h.frame (mesg_other hopens hcall) (Nat.le_refl _) ?_ ?_
    · unfold windowEndAfter
      simp only
      rw [if_neg hopens]
    · simp only
      rw [hstarts, if_neg (by simp)]

/-- Every step that meets the condition keeps the window. -/
theorem WindowKept.step (h : WindowKept w) {a : LpmClockAct} (hcall : WindowCall a) (hok : WindowOk w a)
    (hstep : watchedStep w a = some w') : WindowKept w' := by
  cases a with
  | pass ms =>
    cases hstep
    exact h.frame (.refl _) (Nat.le_add_right _ _) rfl rfl
  | act a =>
    cases a with
    | start suspend =>
      obtain ⟨-, s', hs', rfl⟩ := watchedStep_act hstep
      cases hs'
      by_cases hauto : w.clock.sys.config.isAutoEnable = true
      · by_cases hdelay : 0 < w.clock.sys.config.delaySleepTime
        · refine h.frame ?_ (Nat.le_refl _) rfl rfl
          unfold genieLpmStart
          simp only
          rw [if_pos hauto, if_pos hdelay]
          exact ⟨rfl, id, id⟩
        · have hnow : genieLpmStart w.clock.sys suspend = (genieLpmEnable w.clock.sys false suspend).2 := by
            unfold genieLpmStart
            rw [if_pos hauto, if_neg hdelay]
          rw [hnow]
          cases hret : retOk suspend with
          | true =>
            obtain ⟨hdis, htimer⟩ := genieLpmEnable_ok' w.clock.sys false hret
            exact h.enabled hdis htimer (hok hauto (by omega) hret) _
          | false =>
            exact h.frame (keepsAwake_enable_fail _ false hret) (Nat.le_refl _) rfl rfl
      · refine h.frame ?_ (Nat.le_refl _) rfl rfl
        unfold genieLpmStart
        simp only
        rw [if_neg hauto]
        exact .refl _
    | enable force suspend => exact absurd hcall id
    | disable resume =>
      cases hstep
      exact h.frame (keepsAwake_disable _ resume) (Nat.le_refl _) rfl rfl
    | mesg m resume => exact h.mesg hcall hok hstep
    | ioWakeup =>
      cases hstep
      exact h.frame ⟨rfl, id, id⟩ (Nat.le_refl _) rfl rfl
    | delaySleepTimer suspend =>
      obtain ⟨-, s', hs', rfl⟩ := watchedStep_act hstep
      simp only [lpmStep] at hs'
      split at hs'
      case isFalse => exact absurd hs' (by simp)
      case isTrue =>
        cases hs'
        cases hret : retOk suspend with
        | true =>
          obtain ⟨hdis, htimer⟩ := genieLpmEnable_ok'
            { w.clock.sys with delaySleepTimer := w.clock.sys.delaySleepTimer.fired } false hret
          exact h.enabled hdis htimer (hok hret) _
        | false =>
          have hkeeps := keepsAwake_enable_fail
            { w.clock.sys with delaySleepTimer := w.clock.sys.delaySleepTimer.fired } false hret
          exact h.frame ⟨hkeeps.timer, hkeeps.hasDisabled, hkeeps.disabled⟩ (Nat.le_refl _) rfl rfl
    | glpWakeupTimer ret =>
      obtain ⟨-, s', hs', rfl⟩ := watchedStep_act hstep
      simp only [lpmStep] at hs'
      split at hs'
      case isFalse => exact absurd hs' (by simp)
      case isTrue =>
        cases hs'
        exact h.frame (keepsAwake_glp _ ret) (Nat.le_refl _) rfl rfl
    | ioWakeupTimer high resume =>
      obtain ⟨-, s', hs', rfl⟩ := watchedStep_act hstep
      simp only [lpmStep] at hs'
      split at hs'
      case isFalse => exact absurd hs' (by simp)
      case isTrue =>
        cases hs'
        exact h.frame (keepsAwake_io _ high resume) (Nat.le_refl _) rfl rfl
    | msgWakeupTimer suspend => exact h.msgTimer hstep

/-- What is claimed follows. -/
theorem WindowKept.honoured (h : WindowKept w) : WindowHonoured w := by
  refine ⟨fun hlt => h.disabled (h.awake hlt), ?_⟩
  intro m resume payload hopens hack harmed
  obtain ⟨hconf, hopid, hactive, -⟩ := opensWindow_iff.1 hopens
  obtain ⟨hpos, hlt⟩ := activeTime_bounds m
  have hpayload : genieLpmMsgStatusAck m.attrType (activeTime m.attrTime) = payload := by
    unfold genieLpmMesgAck at hack
    rw [if_neg (by simp [hconf])] at hack
    split at hack
    · exact Option.some.inj hack
    · exact absurd hack (by simp)
  rw [mesg_timer hopens] at harmed ⊢
  rw [h.handled.rearm] at harmed
  rw [start_initCount, changeOnce_initCount (by rw [stop_hdl, harmed]) (stop_armed h.handled) hpos hlt,
    ← hpayload, ackedMs_genieLpmMsgStatusAck _ hlt]

end Runs

/-- **Active windows are honoured.** In every run that starts with `genie_lpm_init`, whose messages never ask to
enter sleep and all of whose steps meet `WindowOk`, the node is awake in every window that was asked for, and each
window that a message opens is as long as its answer says. -/
theorem active_window_honoured {conf : LpmConf} {as : List LpmClockAct} {w : Watched}
    (hcalls : ∀ a ∈ as, WindowCall a) (hmeet : StepsMeet watchedStep WindowOk (watchedInit conf) as)
    (hrun : runSteps watchedStep (watchedInit conf) as = some w) : WindowHonoured w :=
  (runSteps_inv (fun _ _ _ h hok hstep => WindowKept.step h hok.1 hok.2 hstep) (windowKept_init conf)
    (hmeet.and_forall hcalls) hrun).honoured

instance (w : Watched) : (a : LpmClockAct) → Decidable (WindowOk w a)
  | .pass _ => isTrue trivial
  | .act (.start suspend) => inferInstanceAs (Decidable (_ → _ → retOk suspend = true → _))
  | .act (.enable _ _) => isTrue trivial
  | .act (.disable _) => isTrue trivial
  | .act (.mesg m resume) => inferInstanceAs (Decidable (OpensWindow w.clock.sys m resume → _ ∧ (_ → _)))
  | .act .ioWakeup => isTrue trivial
  | .act (.delaySleepTimer suspend) => inferInstanceAs (Decidable (retOk suspend = true → _))
  | .act (.glpWakeupTimer _) => isTrue trivial
  | .act (.ioWakeupTimer _ _) => isTrue trivial
  | .act (.msgWakeupTimer _) => isTrue trivial

/-- A configuration with cycling and with messages. -/
def windowConf : LpmConf :=
  { lpmWakeupIo := false, ioConfig := [], lpmWakeupMsg := true, isAutoEnable := true, delaySleepTime := 0
    sleepMs := 1000, wakeupMs := 100, genieLpmCb := true }

/-- A message for `n` seconds, to be answered. -/
def windowMesg (n : ℕ) : LpmMesg := ⟨vendorOpAttrSetAck, [0xBA, 0x01, n % 256, n / 256]⟩

/-- A window of five seconds: after 4999 ms the node is awake in it, and when it is over the node sleeps. -/
theorem active_window_honoured_five :
    (∃ w, runSteps watchedStep (watchedInit windowConf) [.act (.mesg (windowMesg 5) 0), .pass 4999] = some w ∧
      w.clock.now < w.windowEnd ∧ w.clock.sys.status = .wakeup ∧ WindowHonoured w) ∧
    ∃ w, runSteps watchedStep (watchedInit windowConf)
        [.act (.mesg (windowMesg 5) 0), .pass 5000, .act (.msgWakeupTimer 0)] = some w ∧
      w.clock.sys.status = .sleep ∧ WindowHonoured w := by
  have hinside : (runSteps watchedStep (watchedInit windowConf)
      [.act (.mesg (windowMesg 5) 0), .pass 4999]).map (fun w => decide (w.clock.now < w.windowEnd)) =
        some true := by
    decide +kernel
  have hend : (runSteps watchedStep (watchedInit windowConf)
      [.act (.mesg (windowMesg 5) 0), .pass 5000, .act (.msgWakeupTimer 0)]).map
        (fun w => w.clock.sys.status) = some .sleep := by
    decide +kernel
  obtain ⟨w, hw, hin⟩ := Option.map_eq_some_iff.1 hinside
  obtain ⟨w', hw', hsleep⟩ := Option.map_eq_some_iff.1 hend
  have hhonoured : WindowHonoured w := active_window_honoured (by decide) (by decide +kernel) hw
  exact ⟨⟨w, hw, of_decide_eq_true hin, hhonoured.awake (of_decide_eq_true hin), hhonoured⟩, w', hw', hsleep,
    active_window_honoured (by decide) (by decide +kernel) hw'⟩

/-- A window of 66 seconds is over after two, and one of 60 when `delay_sleep_timer` is. -/
theorem active_window_cut :
    (∃ w, runSteps watchedStep (watchedInit windowConf)
        [.act (.mesg (windowMesg 66) 0), .pass 2000, .act (.msgWakeupTimer 0)] = some w ∧
      w.clock.now < w.windowEnd ∧ w.clock.sys.status = .sleep) ∧
    ∃ w, runSteps watchedStep (watchedInit windowConf)
        [.act (.start 0), .pass 9000, .act (.mesg (windowMesg 60) 0), .pass 1000,
          .act (.delaySleepTimer 0)] = some w ∧
      w.clock.now < w.windowEnd ∧ w.clock.sys.status = .sleep := by
  refine ⟨⟨_, rfl, ?_⟩, ⟨_, rfl, ?_⟩⟩ <;> decide +kernel

end GenieSdk.Analysis.Window
