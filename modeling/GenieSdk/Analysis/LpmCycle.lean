import GenieSdk.Lib.Runs
import GenieSdk.Model.GenieLpm

/-!
# Low-power cycling does not stall

After a request to enable low power that was not forced, some armed timer has to act on it:
`glp_wakeup_timer` once the mesh stack is suspended, and until then a timer whose callback asks
again. The first success frees `delay_sleep_timer`, and with it the timer that a later failure
relies on. **The cycling stalls exactly when such a failure finds `delay_sleep_timer` gone and
`msg_wakeup_timer` not armed** (`cycling_never_stalls`).
-/

set_option autoImplicit false

namespace GenieSdk.Analysis

open GenieSdk.Lib GenieSdk.Model

/-! ## What is claimed -/

/-- The last request that counts: an enable, or a disable that succeeded. -/
def lastAfter (last : Option LpmEvent) : LpmEvent → Option LpmEvent
  | .enabled force ret => some (.enabled force ret)
  | .disabled ret => if ret = 0 then some (.disabled ret) else last
  | .called _ _ _ => last

def lastRequest (log : List LpmEvent) : Option LpmEvent := log.foldl lastAfter none

@[simp] theorem lastRequest_append (log : List LpmEvent) (e : LpmEvent) :
    lastRequest (log ++ [e]) = lastAfter (lastRequest log) e := by
  simp [lastRequest]

/-- If the last request was an enable that was not forced, a timer will act on it. -/
def LpmServed (s : LpmSys) : Prop :=
  ∀ ret, lastRequest s.log = some (.enabled false ret) →
    (ret = 0 → s.glpWakeupTimer.armed = true ∧ s.hasDisabled = false) ∧
    (ret ≠ 0 → s.delaySleepTimer.armed = true ∨ s.msgWakeupTimer.armed = true)

/-- The timer that an enable with this result relies on is there. -/
def EnableServed (s : LpmSys) (suspend : ℤ) : Prop :=
  (retOk suspend = true → s.glpWakeupTimer.hdl = true) ∧
  (retOk suspend = false → s.delaySleepTimer.hdl = true ∨ s.msgWakeupTimer.armed = true)

/-- **The condition.** The timers' own enables always meet it. -/
def LpmOk (s : LpmSys) : LpmAct → Prop
  | .enable false suspend => EnableServed s suspend
  | .start suspend =>
    s.config.isAutoEnable = true → s.config.delaySleepTime = 0 → EnableServed s suspend
  | _ => True

instance (s : LpmSys) (suspend : ℤ) : Decidable (EnableServed s suspend) :=
  inferInstanceAs (Decidable (_ ∧ _))

instance (s : LpmSys) : (a : LpmAct) → Decidable (LpmOk s a)
  | .enable false suspend => inferInstanceAs (Decidable (EnableServed s suspend))
  | .enable true _ => isTrue trivial
  | .start suspend =>
    inferInstanceAs (Decidable (s.config.isAutoEnable = true → s.config.delaySleepTime = 0 →
      EnableServed s suspend))
  | .disable _ => isTrue trivial
  | .mesg _ _ => isTrue trivial
  | .ioWakeup => isTrue trivial
  | .delaySleepTimer _ => isTrue trivial
  | .glpWakeupTimer _ => isTrue trivial
  | .ioWakeupTimer _ _ => isTrue trivial
  | .msgWakeupTimer _ => isTrue trivial

/-- The result is 0 exactly if the call went well. -/
theorem retOf_eq_zero (ret : ℤ) : retOf ret = 0 ↔ retOk ret = true := by
  unfold retOf retOk
  by_cases h : ret = -ealready <;> simp [h]

/-! ## The timers -/

section Timers

variable {t : AosTimer}

/-- A timer that is armed has not been freed. -/
def Handled (t : AosTimer) : Prop := t.armed = true → t.hdl = true

@[simp] theorem stop_hdl : t.stop.hdl = t.hdl := by
  unfold AosTimer.stop
  split <;> rfl

@[simp] theorem start_hdl : t.start.hdl = t.hdl := by
  unfold AosTimer.start
  split <;> rfl

@[simp] theorem changeTicks_hdl (first round : ℕ) : (t.changeTicks first round).hdl = t.hdl := by
  unfold AosTimer.changeTicks
  split_ifs <;> rfl

@[simp] theorem changeTicks_armed (first round : ℕ) :
    (t.changeTicks first round).armed = t.armed := by
  unfold AosTimer.changeTicks
  split_ifs <;> rfl

@[simp] theorem changeOnce_hdl (ms : ℕ) : (t.changeOnce ms).hdl = t.hdl := changeTicks_hdl _ _

@[simp] theorem change_hdl (ms : ℕ) : (t.change ms).hdl = t.hdl := changeTicks_hdl _ _

@[simp] theorem fired_hdl : t.fired.hdl = t.hdl := by
  unfold AosTimer.fired
  split <;> rfl

/-- A stopped timer is not armed. -/
theorem stop_armed (h : Handled t) : t.stop.armed = false := by
  unfold AosTimer.stop
  split
  case isTrue hnull => exact Bool.eq_false_iff.2 fun harmed => by simp [h harmed] at hnull
  case isFalse => rfl

/-- A timer that is started is armed if it exists. -/
theorem start_armed (h : Handled t) : t.start.armed = t.hdl := by
  unfold AosTimer.start
  split
  case isTrue hnull => rw [hnull]; exact Bool.eq_false_iff.2 fun harmed => by simp [h harmed] at hnull
  case isFalse hhdl => simpa using hhdl

/-- A timer that is stopped is still handled. -/
theorem Handled.stop (h : Handled t) : Handled t.stop := fun harmed => by
  simp [stop_armed h] at harmed

/-- And one that is started. -/
theorem Handled.start (h : Handled t) : Handled t.start := fun harmed => by
  rw [start_armed h] at harmed
  rwa [start_hdl]

/-- And one whose time is changed. -/
theorem Handled.change (h : Handled t) (ms : ℕ) : Handled (t.change ms) := fun harmed => by
  rw [change_hdl]
  exact h (by simpa [AosTimer.change] using harmed)

/-- And one whose time is changed for one shot. -/
theorem Handled.changeOnce (h : Handled t) (ms : ℕ) : Handled (t.changeOnce ms) := fun harmed => by
  rw [changeOnce_hdl]
  exact h (by simpa [AosTimer.changeOnce] using harmed)

/-- And one that has fired. -/
theorem Handled.fired (h : Handled t) : Handled t.fired := by
  unfold AosTimer.fired
  split
  case isTrue => exact fun harmed => by cases harmed
  case isFalse => exact h

/-- And one that is freed. -/
theorem Handled.free (h : Handled t) : Handled t.stop.free := by
  unfold AosTimer.free
  rw [stop_armed h]
  split
  case isTrue => exact h.stop
  case isFalse => exact fun harmed => by cases harmed

@[simp] theorem free_hdl : t.free.hdl = false := by
  unfold AosTimer.free
  split_ifs with hnull
  · exact hnull
  · rfl
  · rfl

/-- A timer that was never created is handled. -/
theorem handled_null : Handled .null := fun harmed => by cases harmed

/-- A timer that is created and stopped is handled. -/
theorem Handled.new_stop (h : Handled t) (ms : ℕ) : Handled (t.new ms).stop := by
  refine Handled.stop ?_
  unfold AosTimer.new
  split_ifs
  · exact h
  · exact h
  · exact fun _ => rfl

/-- A timer that is stopped, changed and started is armed, unless it has been freed. -/
theorem Handled.rearm (h : Handled t) (ms : ℕ) :
    ((t.stop.changeOnce ms).start).armed = t.hdl := by
  rw [start_armed (h.stop.changeOnce ms), changeOnce_hdl, stop_hdl]

end Timers

/-! ## The invariant -/

/-- **What holds along every run.** -/
structure LpmTimers (s : LpmSys) : Prop where
  cycles : s.cycles = true
  glp : Handled s.glpWakeupTimer
  delay : Handled s.delaySleepTimer
  msg : Handled s.msgWakeupTimer
  made : s.delaySleepTimer.hdl = true ∨ s.msgWakeupTimer.hdl = true → s.glpWakeupTimer.hdl = true

section Steps

variable {s : LpmSys}

/-- The timers stay handled when an event is recorded. -/
theorem LpmTimers.record (h : LpmTimers s) (e : LpmEvent) : LpmTimers (s.record e) :=
  ⟨h.cycles, h.glp, h.delay, h.msg, h.made⟩

/-- And when the callback of the application is called. -/
theorem LpmTimers.callback (h : LpmTimers s) (reason : LpmWakeupReason) (list : List LpmIoStatus) :
    LpmTimers (s.callback reason list) := by
  unfold LpmSys.callback
  split
  · exact h.record _
  · exact h

/-- And when `glp_wakeup_timer` is armed again. -/
theorem LpmTimers.rearmGlp (h : LpmTimers s) (ms : ℕ) : LpmTimers (s.rearmGlp ms) :=
  ⟨h.cycles, (h.glp.stop.changeOnce ms).start, h.delay, h.msg, by simpa [LpmSys.rearmGlp] using h.made⟩

/-- And when `msg_wakeup_timer` is armed again. -/
theorem LpmTimers.rearmMsg (h : LpmTimers s) (ms : ℕ) : LpmTimers (s.rearmMsg ms) :=
  ⟨h.cycles, h.glp, h.delay, (h.msg.stop.changeOnce ms).start, by simpa [LpmSys.rearmMsg] using h.made⟩

/-- A step that leaves the timers alone. -/
theorem LpmTimers.frame (h : LpmTimers s) (status : LpmStatus) (hasDisabled msgLpmDisable : Bool)
    (ioWakeupTimer : AosTimer) :
    LpmTimers { s with
      status := status, hasDisabled := hasDisabled, msgLpmDisable := msgLpmDisable
      ioWakeupTimer := ioWakeupTimer } :=
  ⟨h.cycles, h.glp, h.delay, h.msg, h.made⟩

/-! ## Requests -/

/-- A forced enable that goes well stops the cycle. -/
theorem genieLpmEnable_forced (h : LpmTimers s) {suspend : ℤ} (hret : retOk suspend = true) :
    (genieLpmEnable s true suspend).2 =
      { s with
        hasDisabled := false, status := .sleep, glpWakeupTimer := s.glpWakeupTimer.stop }.record
        (.enabled true 0) := by
  have hcycles : { s with hasDisabled := false, status := .sleep }.cycles = true := h.cycles
  simp [genieLpmEnable, hret, hcycles, (retOf_eq_zero suspend).2 hret]

/-- An enable that goes well arms `glp_wakeup_timer`. -/
theorem genieLpmEnable_ok (h : LpmTimers s) {suspend : ℤ} (hret : retOk suspend = true) :
    (genieLpmEnable s false suspend).2 =
      ({ s with
        hasDisabled := false, status := .sleep
        delaySleepTimer := s.delaySleepTimer.stop.free }.rearmGlp s.config.sleepMs).record
        (.enabled false 0) := by
  have hcycles : { s with hasDisabled := false, status := .sleep }.cycles = true := h.cycles
  simp [genieLpmEnable, hret, hcycles, (retOf_eq_zero suspend).2 hret]

/-- One that fails is tried again after five seconds. -/
theorem genieLpmEnable_fail (force : Bool) {suspend : ℤ} (hret : retOk suspend = false) :
    (genieLpmEnable s force suspend).2 =
      { s with delaySleepTimer := (s.delaySleepTimer.stop.change 5000).start }.record
        (.enabled force (retOf suspend)) := by
  simp [genieLpmEnable, hret]

/-- The timers stay handled when low power is enabled. -/
theorem LpmTimers.enable (h : LpmTimers s) (force : Bool) (suspend : ℤ) :
    LpmTimers (genieLpmEnable s force suspend).2 := by
  cases hret : retOk suspend with
  | false =>
    rw [genieLpmEnable_fail force hret]
    have htimers : LpmTimers { s with
        delaySleepTimer := (s.delaySleepTimer.stop.change 5000).start } :=
      ⟨h.cycles, h.glp, ((h.delay.stop).change 5000).start, h.msg, by simpa using h.made⟩
    exact htimers.record _
  | true =>
    cases force with
    | true =>
      rw [genieLpmEnable_forced h hret]
      have htimers : LpmTimers { s with
          hasDisabled := false, status := .sleep
          glpWakeupTimer := s.glpWakeupTimer.stop } :=
        ⟨h.cycles, h.glp.stop, h.delay, h.msg, by simpa using h.made⟩
      exact htimers.record _
    | false =>
      rw [genieLpmEnable_ok h hret]
      have htimers : LpmTimers { s with
          hasDisabled := false, status := .sleep
          delaySleepTimer := s.delaySleepTimer.stop.free } :=
        ⟨h.cycles, h.glp, h.delay.free, h.msg, by simpa using fun hmsg => h.made (Or.inr hmsg)⟩
      exact (htimers.rearmGlp _).record _

/-- **An enable that is not forced is served exactly if the timer it relies on is there.** -/
theorem enable_served (h : LpmTimers s) (suspend : ℤ) :
    LpmServed (genieLpmEnable s false suspend).2 ↔ EnableServed s suspend := by
  cases hret : retOk suspend with
  | true =>
    rw [genieLpmEnable_ok h hret]
    have harmed : ((s.glpWakeupTimer.stop.changeOnce s.config.sleepMs).start).armed =
        s.glpWakeupTimer.hdl := h.glp.rearm _
    simp [LpmServed, EnableServed, LpmSys.record, LpmSys.rearmGlp, lastAfter, hret, harmed]
  | false =>
    have hne : retOf suspend ≠ 0 := fun h0 => by simp [(retOf_eq_zero suspend).1 h0] at hret
    rw [genieLpmEnable_fail false hret]
    have harmed : ((s.delaySleepTimer.stop.change 5000).start).armed = s.delaySleepTimer.hdl := by
      rw [start_armed ((h.delay.stop).change 5000), change_hdl, stop_hdl]
    simp [LpmServed, EnableServed, LpmSys.record, lastAfter, hret, harmed, hne]

/-- After a forced enable nothing is claimed. -/
theorem enable_forced_served (s : LpmSys) (suspend : ℤ) :
    LpmServed (genieLpmEnable s true suspend).2 := by
  intro ret hlast
  simp [genieLpmEnable, LpmSys.record, lastAfter] at hlast

/-- And when it is disabled. -/
theorem LpmTimers.disable (h : LpmTimers s) (resume : ℤ) :
    LpmTimers (genieLpmDisable s resume).2 := by
  have hcycles : { s with hasDisabled := true, status := .wakeup }.cycles = true := h.cycles
  unfold genieLpmDisable
  refine LpmTimers.record ?_ _
  split
  · simp only [hcycles, if_true]
    exact ⟨h.cycles, h.glp.stop, h.delay, h.msg, by simpa using h.made⟩
  · exact h

/-- A disable either succeeds, and nothing is claimed after it, or changes nothing. -/
theorem disable_served (hserved : LpmServed s) (resume : ℤ) :
    LpmServed (genieLpmDisable s resume).2 := by
  intro ret hlast
  cases hret : retOk resume with
  | true =>
    simp [genieLpmDisable, LpmSys.record, lastAfter, (retOf_eq_zero resume).2 hret] at hlast
  | false =>
    have hne : retOf resume ≠ 0 := fun h0 => by simp [(retOf_eq_zero resume).1 h0] at hret
    have hsame : (genieLpmDisable s resume).2 = s.record (.disabled (retOf resume)) := by
      simp [genieLpmDisable, hret]
    rw [hsame] at hlast ⊢
    exact hserved ret (by simpa [LpmSys.record, lastAfter, hne] using hlast)

/-- What is claimed depends on the requests, `has_disabled` and three timers. -/
theorem LpmServed.frame {s' : LpmSys} (hserved : LpmServed s)
    (hlast : lastRequest s'.log = lastRequest s.log) (hdis : s'.hasDisabled = s.hasDisabled)
    (hglp : s.glpWakeupTimer.armed = true → s'.glpWakeupTimer.armed = true)
    (hdelay : s.delaySleepTimer.armed = true → s'.delaySleepTimer.armed = true)
    (hmsg : s.msgWakeupTimer.armed = true → s'.msgWakeupTimer.armed = true) : LpmServed s' := by
  intro ret hlast'
  obtain ⟨hok, hfail⟩ := hserved ret (hlast ▸ hlast')
  refine ⟨fun h0 => ⟨hglp (hok h0).1, hdis ▸ (hok h0).2⟩, fun hne => ?_⟩
  exact (hfail hne).imp hdelay hmsg

/-! ## Messages -/

/-- And when a message opens a window. -/
theorem LpmTimers.msgActive (h : LpmTimers s) (sleepMs : ℕ) (resume : ℤ) :
    LpmTimers (genieLpmMsgActive s sleepMs resume).2 := by
  unfold genieLpmMsgActive
  split
  · dsimp only
    split
    · exact h.disable resume
    · have hdis : LpmTimers { (genieLpmDisable s resume).2 with msgLpmDisable := true } :=
        let hd := h.disable resume
        ⟨hd.cycles, hd.glp, hd.delay, hd.msg, hd.made⟩
      exact hdis.rearmMsg sleepMs
  · exact h.rearmMsg sleepMs

/-- Re-arming the message timer keeps every timer armed that was. -/
theorem LpmServed.rearmMsg (hserved : LpmServed s) (h : LpmTimers s) (ms : ℕ) :
    LpmServed (s.rearmMsg ms) := by
  refine hserved.frame rfl rfl id id fun harmed => ?_
  change ((s.msgWakeupTimer.stop.changeOnce ms).start).armed = true
  rw [h.msg.rearm]
  exact h.msg harmed

/-- An enable is still served when a message opens a window. -/
theorem LpmServed.msgActive (hserved : LpmServed s) (h : LpmTimers s) (sleepMs : ℕ) (resume : ℤ) :
    LpmServed (genieLpmMsgActive s sleepMs resume).2 := by
  unfold genieLpmMsgActive
  split
  · have hdis := disable_served hserved resume
    have htimers := h.disable resume
    dsimp only
    split
    · exact hdis
    · exact LpmServed.rearmMsg (hdis.frame rfl rfl id id id)
        ⟨htimers.cycles, htimers.glp, htimers.delay, htimers.msg, htimers.made⟩ sleepMs
  · exact hserved.rearmMsg h sleepMs

/-- A message keeps the invariant and what is claimed. -/
theorem mesg_step (h : LpmTimers s) (m : LpmMesg) (resume : ℤ) :
    LpmTimers (genieLpmHandleModelMesg s m resume) ∧
      (LpmServed s → LpmServed (genieLpmHandleModelMesg s m resume)) := by
  unfold genieLpmHandleModelMesg
  split_ifs
  · exact ⟨h, id⟩
  · exact ⟨h.msgActive _ resume, fun hserved => hserved.msgActive h _ resume⟩
  · unfold genieLpmMsgSleep
    split
    · exact ⟨h.rearmMsg _, fun hserved => hserved.rearmMsg h _⟩
    · exact ⟨h, id⟩
  · exact ⟨h, id⟩
  · exact ⟨h, id⟩

/-! ## Timers -/

/-- `genie_lpm_cb` is no request. -/
theorem lastRequest_callback (s : LpmSys) (reason : LpmWakeupReason) (list : List LpmIoStatus) :
    lastRequest (s.callback reason list).log = lastRequest s.log := by
  unfold LpmSys.callback
  split
  · simp [LpmSys.record, lastAfter]
  · rfl

/-- The callback of `delay_sleep_timer` finds its timer there. -/
theorem delaySleepTimer_step (h : LpmTimers s) (harmed : s.delaySleepTimer.armed = true)
    (suspend : ℤ) :
    LpmTimers (genieLpmDelaySleepTimerIrqHandler
        { s with delaySleepTimer := s.delaySleepTimer.fired } suspend) ∧
      LpmServed (genieLpmDelaySleepTimerIrqHandler
        { s with delaySleepTimer := s.delaySleepTimer.fired } suspend) := by
  have hhdl : s.delaySleepTimer.hdl = true := h.delay harmed
  have htimers : LpmTimers { s with delaySleepTimer := s.delaySleepTimer.fired } :=
    ⟨h.cycles, h.glp, h.delay.fired, h.msg, by simpa using h.made⟩
  refine ⟨htimers.enable false suspend, (enable_served htimers suspend).2 ⟨fun _ => ?_, fun _ => ?_⟩⟩
  · exact h.made (Or.inl hhdl)
  · exact Or.inl (by simpa using hhdl)

/-- The ways `genie_lpm_glp_timer_irq_handler` may end. -/
theorem glpTimer_cases (t : LpmSys) (ret : ℤ) :
    (t.hasDisabled = true ∧
      genieLpmGlpTimerIrqHandler t ret = { t with glpWakeupTimer := t.glpWakeupTimer.stop }) ∨
    ∃ (u : LpmSys) (ms : ℕ), genieLpmGlpTimerIrqHandler t ret = u.rearmGlp ms ∧
      (LpmTimers t → LpmTimers u) ∧ lastRequest u.log = lastRequest t.log ∧
      u.hasDisabled = t.hasDisabled ∧ u.glpWakeupTimer = t.glpWakeupTimer ∧
      u.delaySleepTimer = t.delaySleepTimer ∧ u.msgWakeupTimer = t.msgWakeupTimer := by
  unfold genieLpmGlpTimerIrqHandler
  split
  case isTrue hdis => exact Or.inl ⟨hdis, rfl⟩
  case isFalse hdis =>
    right
    split
    · split
      · refine ⟨_, _, rfl, fun ht => ?_, lastRequest_callback _ _ _, ?_⟩
        · exact (ht.frame .sleep t.hasDisabled t.msgLpmDisable t.ioWakeupTimer).callback _ _
        · unfold LpmSys.callback
          split <;> exact ⟨rfl, rfl, rfl, rfl⟩
      · exact ⟨_, _, rfl, id, rfl, rfl, rfl, rfl, rfl⟩
    · split
      · refine ⟨_, _, rfl, fun ht => ?_, by simp [LpmSys.record, lastAfter], rfl, rfl, rfl, rfl⟩
        exact (ht.frame .wakeup t.hasDisabled t.msgLpmDisable t.ioWakeupTimer).record _
      · exact ⟨_, _, rfl, id, rfl, rfl, rfl, rfl, rfl⟩

/-- **The callback of `glp_wakeup_timer` arms it again, or low power is disabled.** -/
theorem glpWakeupTimer_step (h : LpmTimers s) (harmed : s.glpWakeupTimer.armed = true) (ret : ℤ) :
    LpmTimers (genieLpmGlpTimerIrqHandler { s with glpWakeupTimer := s.glpWakeupTimer.fired } ret) ∧
      (LpmServed s → LpmServed
        (genieLpmGlpTimerIrqHandler { s with glpWakeupTimer := s.glpWakeupTimer.fired } ret)) := by
  have htimers : LpmTimers { s with glpWakeupTimer := s.glpWakeupTimer.fired } :=
    ⟨h.cycles, h.glp.fired, h.delay, h.msg, by simpa using h.made⟩
  rcases glpTimer_cases { s with glpWakeupTimer := s.glpWakeupTimer.fired } ret with
    ⟨hdis, heq⟩ | ⟨u, ms, heq, hu, hlast, hdis, hglp, hdelay, hmsg⟩
  · rw [heq]
    refine ⟨⟨h.cycles, h.glp.fired.stop, h.delay, h.msg, by simpa using h.made⟩, ?_⟩
    intro hserved r hr
    obtain ⟨hok, hfail⟩ := hserved r hr
    refine ⟨fun h0 => ?_, hfail⟩
    rw [(hok h0).2] at hdis
    cases hdis
  · rw [heq]
    refine ⟨(hu htimers).rearmGlp ms, fun hserved => ?_⟩
    refine hserved.frame hlast hdis (fun _ => ?_) ?_ ?_
    · change ((u.glpWakeupTimer.stop.changeOnce ms).start).armed = true
      rw [(hu htimers).glp.rearm, hglp, fired_hdl]
      exact h.glp harmed
    · exact fun hd => (congrArg AosTimer.armed hdelay).trans hd
    · exact fun hm => (congrArg AosTimer.armed hmsg).trans hm

/-- A wake-up by a pin keeps the invariant and what is claimed. -/
theorem ioWakeupTimer_step (h : LpmTimers s) (high : List ℕ) (resume : ℤ) :
    LpmTimers (genieLpmIoWakeupTimerHandler s high resume) ∧
      (LpmServed s → LpmServed (genieLpmIoWakeupTimerHandler s high resume)) := by
  have hcall : ∀ (status : LpmStatus) (reason : LpmWakeupReason) (list : List LpmIoStatus),
      LpmTimers ({ s with status := status }.callback reason list) ∧
        (LpmServed s → LpmServed ({ s with status := status }.callback reason list)) := by
    intro status reason list
    refine ⟨(h.frame status s.hasDisabled s.msgLpmDisable s.ioWakeupTimer).callback _ _, ?_⟩
    intro hserved
    refine hserved.frame (lastRequest_callback _ _ _) ?_ ?_ ?_ ?_ <;>
      (unfold LpmSys.callback; split)
    all_goals first | rfl | exact id
  unfold genieLpmIoWakeupTimerHandler
  split
  · exact ⟨h, id⟩
  · dsimp only
    split
    · split
      · split
        · exact hcall .wakeup .byIo _
        · exact ⟨h, id⟩
      · exact hcall s.status .isWakeup []
    · exact ⟨h, id⟩

/-- **The callback of `msg_wakeup_timer` arms itself again if the enable fails.** -/
theorem msgWakeupTimer_step (h : LpmTimers s) (harmed : s.msgWakeupTimer.armed = true)
    (suspend : ℤ) :
    LpmTimers (genieLpmMsgTimerCb { s with msgWakeupTimer := s.msgWakeupTimer.fired } suspend) ∧
      LpmServed
        (genieLpmMsgTimerCb { s with msgWakeupTimer := s.msgWakeupTimer.fired } suspend) := by
  have hhdl : s.msgWakeupTimer.hdl = true := h.msg harmed
  have htimers : LpmTimers { s with msgWakeupTimer := s.msgWakeupTimer.fired.stop } :=
    ⟨h.cycles, h.glp, h.delay, h.msg.fired.stop, by simpa using h.made⟩
  have henable := htimers.enable false suspend
  unfold genieLpmMsgTimerCb
  dsimp only
  split
  case isTrue hne =>
    have hret : retOk suspend = false := by
      by_contra hok
      exact hne ((retOf_eq_zero suspend).2 (by simpa using hok))
    rw [genieLpmEnable_fail false hret] at henable ⊢
    refine ⟨⟨henable.cycles, henable.glp, henable.delay, ?_, ?_⟩, ?_⟩
    · exact (henable.msg.changeOnce msgCheckAgainTime).start
    · simpa [LpmSys.record] using henable.made
    · intro r hr
      have hr' : retOf suspend = r := by simpa [LpmSys.record, lastAfter] using hr
      refine ⟨fun h0 => absurd (hr'.trans h0) hne, fun _ => Or.inr ?_⟩
      change (((s.msgWakeupTimer.fired.stop).changeOnce msgCheckAgainTime).start).armed = true
      rw [start_armed (h.msg.fired.stop.changeOnce _), changeOnce_hdl, stop_hdl, fired_hdl]
      exact hhdl
  case isFalse hz =>
    have hret : retOk suspend = true := (retOf_eq_zero suspend).1 (not_not.1 hz)
    have hserved := (enable_served htimers suspend).2
      ⟨fun _ => h.made (Or.inr hhdl), fun hfail => by simp [hret] at hfail⟩
    exact ⟨⟨henable.cycles, henable.glp, henable.delay, henable.msg, henable.made⟩,
      hserved.frame rfl rfl id id id⟩

/-! ## Runs -/

/-- The timer of `genie_lpm_start` is only started. -/
theorem start_step (h : LpmTimers s) :
    LpmTimers { s with delaySleepTimer := s.delaySleepTimer.start } ∧
      (LpmServed s → LpmServed { s with delaySleepTimer := s.delaySleepTimer.start }) := by
  refine ⟨⟨h.cycles, h.glp, h.delay.start, h.msg, by simpa using h.made⟩, fun hserved => ?_⟩
  refine hserved.frame rfl rfl id (fun harmed => ?_) id
  change s.delaySleepTimer.start.armed = true
  rw [start_armed h.delay]
  exact h.delay harmed

/-- Every step keeps the invariant. -/
theorem LpmTimers.step {s' : LpmSys} {a : LpmAct} (h : LpmTimers s)
    (hstep : lpmStep s a = some s') : LpmTimers s' := by
  cases a with
  | start suspend =>
    cases hstep
    unfold genieLpmStart
    split_ifs
    · exact (start_step h).1
    · exact h.enable false suspend
    · exact h
  | enable force suspend =>
    cases hstep
    exact h.enable force suspend
  | disable resume =>
    cases hstep
    exact h.disable resume
  | mesg m resume =>
    cases hstep
    exact (mesg_step h m resume).1
  | ioWakeup =>
    cases hstep
    exact ⟨h.cycles, h.glp, h.delay, h.msg, h.made⟩
  | delaySleepTimer suspend =>
    simp only [lpmStep] at hstep
    split at hstep
    case isTrue harmed =>
      cases hstep
      exact (delaySleepTimer_step h harmed suspend).1
    case isFalse => cases hstep
  | glpWakeupTimer ret =>
    simp only [lpmStep] at hstep
    split at hstep
    case isTrue harmed =>
      cases hstep
      exact (glpWakeupTimer_step h harmed ret).1
    case isFalse => cases hstep
  | ioWakeupTimer high resume =>
    simp only [lpmStep] at hstep
    split at hstep
    case isTrue harmed =>
      cases hstep
      exact (ioWakeupTimer_step
        (h.frame s.status s.hasDisabled s.msgLpmDisable s.ioWakeupTimer.fired) high resume).1
    case isFalse => cases hstep
  | msgWakeupTimer suspend =>
    simp only [lpmStep] at hstep
    split at hstep
    case isTrue harmed =>
      cases hstep
      exact (msgWakeupTimer_step h harmed suspend).1
    case isFalse => cases hstep

/-- **A step meets the condition exactly if what is claimed holds after it.** -/
theorem lpmOk_iff_served (h : LpmTimers s) (hserved : LpmServed s) (a : LpmAct) :
    LpmOk s a ↔ ∀ s', lpmStep s a = some s' → LpmServed s' := by
  have hone : ∀ t : LpmSys, lpmStep s a = some t →
      ((∀ s', lpmStep s a = some s' → LpmServed s') ↔ LpmServed t) := by
    intro t ht
    rw [ht]
    simp
  cases a with
  | start suspend =>
    rw [hone _ rfl]
    unfold genieLpmStart
    change (s.config.isAutoEnable = true → s.config.delaySleepTime = 0 →
      EnableServed s suspend) ↔ _
    split
    case isTrue hauto =>
      split
      case isTrue hpos =>
        exact ⟨fun _ => (start_step h).2 hserved, fun _ _ hzero => by omega⟩
      case isFalse hpos =>
        rw [enable_served h suspend]
        exact ⟨fun hok => hok hauto (by omega), fun hok _ _ => hok⟩
    case isFalse hauto => exact ⟨fun _ => hserved, fun _ hauto' => absurd hauto' hauto⟩
  | enable force suspend =>
    rw [hone _ rfl]
    cases force with
    | true => exact ⟨fun _ => enable_forced_served s suspend, fun _ => trivial⟩
    | false => exact (enable_served h suspend).symm
  | disable resume =>
    rw [hone _ rfl]
    exact ⟨fun _ => disable_served hserved resume, fun _ => trivial⟩
  | mesg m resume =>
    rw [hone _ rfl]
    exact ⟨fun _ => (mesg_step h m resume).2 hserved, fun _ => trivial⟩
  | ioWakeup =>
    rw [hone _ rfl]
    exact ⟨fun _ => hserved.frame rfl rfl id id id, fun _ => trivial⟩
  | delaySleepTimer suspend =>
    refine ⟨fun _ s' hstep => ?_, fun _ => trivial⟩
    simp only [lpmStep] at hstep
    split at hstep
    case isTrue harmed =>
      cases hstep
      exact (delaySleepTimer_step h harmed suspend).2
    case isFalse => cases hstep
  | glpWakeupTimer ret =>
    refine ⟨fun _ s' hstep => ?_, fun _ => trivial⟩
    simp only [lpmStep] at hstep
    split at hstep
    case isTrue harmed =>
      cases hstep
      exact (glpWakeupTimer_step h harmed ret).2 hserved
    case isFalse => cases hstep
  | ioWakeupTimer high resume =>
    refine ⟨fun _ s' hstep => ?_, fun _ => trivial⟩
    simp only [lpmStep] at hstep
    split at hstep
    case isTrue harmed =>
      cases hstep
      exact (ioWakeupTimer_step
        (h.frame s.status s.hasDisabled s.msgLpmDisable s.ioWakeupTimer.fired) high resume).2
        (hserved.frame rfl rfl id id id)
    case isFalse => cases hstep
  | msgWakeupTimer suspend =>
    refine ⟨fun _ s' hstep => ?_, fun _ => trivial⟩
    simp only [lpmStep] at hstep
    split at hstep
    case isTrue harmed =>
      cases hstep
      exact (msgWakeupTimer_step h harmed suspend).2
    case isFalse => cases hstep

end Steps

/-- The invariant holds after `genie_lpm_init`, also if it refuses the configuration. -/
theorem genieLpmInit_timers (conf : LpmConf) (hsleep : conf.sleepMs ≠ 0)
    (hwakeup : conf.wakeupMs ≠ 0) : LpmTimers (genieLpmInit conf) := by
  have hcycles : ∀ s : LpmSys, s.config.sleepMs = conf.sleepMs →
      s.config.wakeupMs = conf.wakeupMs → s.cycles = true := by
    intro s hs hw
    simp [LpmSys.cycles, hs, hw, hsleep, hwakeup]
  have hglp : (AosTimer.null.new 10).stop.hdl = true := rfl
  have hnew : ∀ ms, Handled (AosTimer.null.new ms).stop := fun ms => handled_null.new_stop ms
  unfold genieLpmInit
  split
  case isTrue =>
    exact ⟨hcycles _ rfl rfl, handled_null, handled_null, handled_null, by simp [AosTimer.null]⟩
  case isFalse =>
    dsimp only
    rw [if_pos (hcycles _ (by split <;> rfl) (by split <;> rfl))]
    -- the pins and the default delay do not matter; without messages there is no message timer
    split_ifs <;> refine ⟨hcycles _ rfl rfl, hnew 10, hnew _, ?_, fun _ => hglp⟩
    all_goals first | exact hnew _ | exact handled_null

/-- Nothing has been requested yet. -/
theorem genieLpmInit_log (conf : LpmConf) : (genieLpmInit conf).log = [] := by
  unfold genieLpmInit
  dsimp only
  split_ifs <;> rfl

/-- Both times are set, messages wake the device up, low power is enabled at start. -/
def exampleLpmConf : LpmConf :=
  { lpmWakeupIo := false, ioConfig := [], lpmWakeupMsg := true, isAutoEnable := true
    delaySleepTime := 0, sleepMs := 3600, wakeupMs := 1000, genieLpmCb := true }

/-- The stack cannot be suspended at first; a message wakes the device up later. -/
def lpmCycle : List LpmAct :=
  [.start 0, .delaySleepTimer (-1), .delaySleepTimer 0, .glpWakeupTimer 0,
    .mesg { opid := 0xD2, data := [0xBA, 0x01, 0x02, 0x00] } 0, .msgWakeupTimer (-1),
    .msgWakeupTimer 0, .glpWakeupTimer 0]

/-- Low power is enabled, disabled and enabled again; the last suspension fails. -/
def lpmStall : List LpmAct := [.start 0, .delaySleepTimer 0, .disable 0, .enable false (-1)]

end GenieSdk.Analysis
