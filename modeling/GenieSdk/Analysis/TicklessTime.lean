import GenieSdk.Lib.Runs
import GenieSdk.Analysis.TicklessSleep

/-!
# Tickless idle keeps time

`tickless_one_shot_stop` works out the ticks of an idle period from its length alone, and carries what the
periods have over whole ticks in `us_remain`. When the tick rate divides a million the two agree: the ticks
announced, in microseconds, and the remainder are always all the time that has passed (`run_keeps_time`), so
**no drift builds up however the idle time is split into periods** (`idle_keeps_time`).
-/

set_option autoImplicit false

namespace GenieSdk.Analysis

open GenieSdk.Lib GenieSdk.Model

/-! ## The account -/

def announcedBy : TicklessEvent → ℕ
  | .announce nTicks => nTicks
  | _ => 0

def passedBy : TicklessEvent → ℕ
  | .oneShotStop passedMicroSec => passedMicroSec
  | _ => 0

/-- The ticks that have been announced. -/
def announced (s : Tickless) : ℕ := (s.log.map announcedBy).sum

/-- The idle time that the timers have reported, in microseconds. -/
def idleTime (s : Tickless) : ℕ := (s.log.map passedBy).sum

/-- The ticks announced and the remainder are all the time that has passed. -/
structure KeepsTime (tps : ℕ) (s : Tickless) : Prop where
  account : announced s * usPerTick tps + s.usRemain = idleTime s
  below : s.usRemain < usPerTick tps

/-- The ticks of a second. -/
theorem usPerTick_mul {tps : ℕ} (h : tps ∣ 1000000) : tps * usPerTick tps = 1000000 :=
  Nat.mul_div_cancel' h

/-- A tick has some time. -/
theorem usPerTick_pos {tps : ℕ} (h : tps ∣ 1000000) : 0 < usPerTick tps :=
  Nat.pos_of_ne_zero fun h0 => by simpa [h0] using usPerTick_mul h

/-- **One period.** The two formulas agree on how the time is split into ticks and a remainder. -/
theorem ticksPassed_spec {tps usRemain us : ℕ} (htps : tps ∣ 1000000)
    (hremain : usRemain < usPerTick tps) (hus : us < 2 ^ 43) :
    (ticksPassed tps usRemain us).1 * usPerTick tps + (ticksPassed tps usRemain us).2 = usRemain + us ∧
      (ticksPassed tps usRemain us).2 < usPerTick tps := by
  have hmul := usPerTick_mul htps
  have hpos := usPerTick_pos htps
  have htps_le : tps ≤ 1000000 := Nat.le_of_dvd (by norm_num) htps
  have hutick_le : usPerTick tps ≤ 1000000 := Nat.div_le_self _ _
  have htps_pos : 0 < tps := Nat.pos_of_dvd_of_pos htps (by norm_num)
  have hprod : us * tps < 2 ^ 64 := by
    calc us * tps ≤ 2 ^ 43 * 1000000 := Nat.mul_le_mul hus.le htps_le
      _ < 2 ^ 64 := by norm_num
  have hticks : us * tps % 2 ^ 64 / 1000000 = us / usPerTick tps := by
    rw [Nat.mod_eq_of_lt hprod, ← hmul, mul_comm us tps, Nat.mul_div_mul_left _ _ htps_pos]
  have hsplit := Nat.div_add_mod' us (usPerTick tps)
  have hmod := Nat.mod_lt us hpos
  have hquot : us / usPerTick tps ≤ us := Nat.div_le_self _ _
  have hremain64 : (usRemain + us % usPerTick tps) % 2 ^ 64 = usRemain + us % usPerTick tps :=
    Nat.mod_eq_of_lt (by omega)
  unfold ticksPassed
  simp only [hticks, hremain64]
  by_cases hcarry : usRemain + us % usPerTick tps ≥ usPerTick tps
  · have hone : (us / usPerTick tps + 1) % 2 ^ 64 = us / usPerTick tps + 1 :=
      Nat.mod_eq_of_lt (by omega)
    rw [if_pos hcarry, hone]
    refine ⟨?_, by omega⟩
    calc (us / usPerTick tps + 1) * usPerTick tps + (usRemain + us % usPerTick tps - usPerTick tps)
        = usRemain + (us / usPerTick tps * usPerTick tps + us % usPerTick tps) := by
          rw [add_one_mul]
          omega
      _ = usRemain + us := by rw [hsplit]
  · rw [if_neg hcarry]
    refine ⟨?_, Nat.lt_of_not_le hcarry⟩
    calc us / usPerTick tps * usPerTick tps + (usRemain + us % usPerTick tps)
        = usRemain + (us / usPerTick tps * usPerTick tps + us % usPerTick tps) := by omega
      _ = usRemain + us := by rw [hsplit]

/-! ## The steps -/

/-- What `tickless_enter` leaves alone: the account, and the tables of the board. -/
structure SameTime (s s' : Tickless) : Prop where
  usRemain : s'.usRemain = s.usRemain
  announced : announced s' = announced s
  idleTime : idleTime s' = idleTime s

/-- Going tickless leaves the time. -/
theorem ticklessEnter_sameTime {tps : ℕ} {s s' : Tickless} {nTicks : UInt64} {ret : Bool}
    (h : ticklessEnter tps s nTicks ret = some s') : SameTime s s' := by
  have hquiet : ∀ current c, ((goTickless current c).map announcedBy).sum = 0 ∧
      ((goTickless current c).map passedBy).sum = 0 := by
    intro current c
    cases current <;> exact ⟨rfl, rfl⟩
  have hcheck := h
  rw [ticklessEnter, Option.bind_eq_some_iff] at hcheck
  obtain ⟨⟨us, c⟩, hcheck, -⟩ := hcheck
  by_cases hno : s.isCurrentTickless = true ∨ us = 0
  · rw [ticklessEnter_no_start hcheck hno] at h
    obtain rfl := Option.some.inj h
    exact ⟨rfl, by simp [announced, hquiet], by simp [idleTime, hquiet]⟩
  · obtain ⟨hcur, hus⟩ := not_or.1 hno
    rw [Bool.not_eq_true] at hcur
    rw [ticklessEnter_start hcheck hcur (Nat.pos_of_ne_zero hus), Option.map_eq_some_iff] at h
    obtain ⟨timer, -, rfl⟩ := h
    exact ⟨rfl, by simp [announced, announcedBy, hquiet], by simp [idleTime, passedBy, hquiet]⟩

/-- The events of a call of `tickless_exit` after the timer has stopped. -/
def wakeUp (nTicks : ℕ) : List TicklessEvent :=
  (if 0 < nTicks then [.announce nTicks] else []) ++ [.systickResume]

/-- A wakeup announces the ticks that have passed. -/
theorem announcedBy_wakeUp (nTicks : ℕ) : ((wakeUp nTicks).map announcedBy).sum = nTicks := by
  unfold wakeUp
  by_cases h : 0 < nTicks
  · rw [if_pos h]
    rfl
  · rw [if_neg h]
    exact (Nat.eq_zero_of_not_pos h).symm

/-- And takes no time. -/
theorem passedBy_wakeUp (nTicks : ℕ) : ((wakeUp nTicks).map passedBy).sum = 0 := by
  unfold wakeUp
  split <;> rfl

/-- What `tickless_exit` does when the timer says how long it has run. -/
theorem ticklessExit_passed {tps : ℕ} {s : Tickless} (hcur : s.isCurrentTickless = true) (us : UInt64) :
    ticklessExit tps s (some us) = (oneShotTimerOf s s.cStateEntered).map fun _ =>
      { s with
        isCurrentTickless := false
        usRemain := (ticksPassed tps s.usRemain us.toNat).2
        log := s.log ++ .oneShotStop us.toNat :: wakeUp (ticksPassed tps s.usRemain us.toNat).1 } := by
  unfold ticklessExit ticklessOneShotStop oneShotTimerOf wakeUp ticklessAnnounceN
  rw [if_pos hcur, Option.map_map]
  congr 1
  funext timer
  by_cases hticks : 0 < (ticksPassed tps s.usRemain us.toNat).1
  · simp [hticks]
  · simp [hticks]

/-- When the timer cannot be stopped, no time is announced. -/
theorem ticklessExit_failed {tps : ℕ} {s : Tickless} (hcur : s.isCurrentTickless = true) :
    ticklessExit tps s none = (oneShotTimerOf s s.cStateEntered).map fun _ =>
      { s with isCurrentTickless := false, log := s.log ++ wakeUp 0 } := by
  unfold ticklessExit ticklessOneShotStop oneShotTimerOf
  rw [if_pos hcur, Option.map_map]
  rfl

/-- A call of `tickless_exit` whose timer has run for less than `2 ^ 43` us. -/
def ShortPeriod : TicklessAct → Prop
  | .enter _ _ => True
  | .exit passed => ∀ us, passed = some us → us.toNat < 2 ^ 43

/-- The end of a tickless period keeps the time, if the period is short enough. -/
theorem ticklessExit_keepsTime {tps : ℕ} {s s' : Tickless} {passed : Option UInt64}
    (htps : tps ∣ 1000000) (hs : KeepsTime tps s) (hshort : ShortPeriod (.exit passed))
    (h : ticklessExit tps s passed = some s') : KeepsTime tps s' := by
  obtain ⟨haccount, hbelow⟩ := hs
  unfold announced idleTime at haccount
  by_cases hcur : s.isCurrentTickless = true
  · cases passed with
    | none =>
      rw [ticklessExit_failed hcur, Option.map_eq_some_iff] at h
      obtain ⟨timer, -, rfl⟩ := h
      exact ⟨by simpa [announced, idleTime, announcedBy_wakeUp, passedBy_wakeUp] using haccount, hbelow⟩
    | some us =>
      obtain ⟨hsplit, hlt⟩ := ticksPassed_spec htps hbelow (hshort us rfl)
      rw [ticklessExit_passed hcur, Option.map_eq_some_iff] at h
      obtain ⟨timer, -, rfl⟩ := h
      refine ⟨?_, hlt⟩
      simp only [announced, idleTime, List.map_append, List.map_cons, List.sum_append, List.sum_cons,
        announcedBy_wakeUp, passedBy_wakeUp, announcedBy, passedBy, ← haccount]
      rw [Nat.zero_add, add_mul, add_assoc, hsplit]
      omega
  · rw [ticklessExit, if_neg hcur] at h
    obtain rfl := Option.some.inj h
    exact ⟨haccount, hbelow⟩

/-- **Every run keeps time**, whatever the timers' routines return and however often a start fails. -/
theorem run_keeps_time {tps : ℕ} {s s' : Tickless} {as : List TicklessAct} (htps : tps ∣ 1000000)
    (hs : KeepsTime tps s) (hshort : ∀ a ∈ as, ShortPeriod a)
    (hrun : runSteps (ticklessStep tps) s as = some s') : KeepsTime tps s' := by
  refine runSteps_inv (P := fun _ a => ShortPeriod a) ?_ hs
    (stepsMeet_of_forall (fun a ha _ => hshort a ha) s) hrun
  intro s a s' hs hshort hstep
  cases a with
  | enter nTicks ret =>
    obtain ⟨hremain, hann, hidle⟩ := ticklessEnter_sameTime hstep
    exact ⟨by rw [hann, hremain, hidle, hs.account], by rw [hremain]; exact hs.below⟩
  | exit passed => exact ticklessExit_keepsTime htps hs hshort hstep

/-- The ticks announced are the whole ticks of the time that has passed. -/
theorem KeepsTime.announced_eq {tps : ℕ} {s : Tickless} (h : KeepsTime tps s) :
    announced s = idleTime s / usPerTick tps := by
  symm
  apply Nat.div_eq_of_lt_le
  · rw [← h.account]
    omega
  · rw [← h.account, add_one_mul]
    have := h.below
    omega

/-! ## Idle periods -/

/-- The CPU goes tickless when it is idle for `nTicks`. -/
def GoesTickless (tps : ℕ) (s : Tickless) (nTicks : UInt64) : Prop :=
  s.isCurrentTickless = false ∧
    ∃ s', ticklessEnter tps s nTicks true = some s' ∧ s'.isCurrentTickless = true

/-- The board's tables are the same, and so is whether the CPU is tickless. -/
structure SameBoard (s s' : Tickless) : Prop where
  config : s'.cStateConfig = s.cStateConfig
  latency : s'.cStateLatency = s.cStateLatency
  timers : s'.cStateOneShotTimer = s.cStateOneShotTimer
  current : s'.isCurrentTickless = s.isCurrentTickless

/-- The check depends on the board only. -/
theorem SameBoard.check {s s' : Tickless} (h : SameBoard s s') (tps : ℕ) (nTicks : UInt64) (toSet : ℕ) :
    ticklessEnterCheck tps s' nTicks toSet = ticklessEnterCheck tps s nTicks toSet := by
  unfold ticklessEnterCheck
  rw [h.config, h.latency, h.timers]

/-- When the system goes tickless. -/
theorem goesTickless_iff {tps : ℕ} {s : Tickless} {nTicks : UInt64} :
    GoesTickless tps s nTicks ↔ s.isCurrentTickless = false ∧ ∃ us c timer, 0 < us ∧
      ticklessEnterCheck tps s nTicks 1 = some (us, c) ∧ oneShotTimerOf s c = some timer := by
  unfold GoesTickless
  apply and_congr_right
  intro hcur
  constructor
  · rintro ⟨s', hret, hcur'⟩
    have hcheck := hret
    rw [ticklessEnter, Option.bind_eq_some_iff] at hcheck
    obtain ⟨⟨us, c⟩, hcheck, -⟩ := hcheck
    by_cases hus : us = 0
    · rw [ticklessEnter_no_start hcheck (Or.inr hus)] at hret
      obtain rfl := Option.some.inj hret
      exact absurd hcur' (by simp [hcur])
    · have hpos := Nat.pos_of_ne_zero hus
      rw [ticklessEnter_start hcheck hcur hpos, Option.map_eq_some_iff] at hret
      obtain ⟨timer, htimer, -⟩ := hret
      exact ⟨us, c, timer, hpos, hcheck, htimer⟩
  · rintro ⟨us, c, timer, hpos, hcheck, htimer⟩
    exact ⟨_, by rw [ticklessEnter_start hcheck hcur hpos, htimer, Option.map_some], rfl⟩

/-- And that depends on the board only. -/
theorem SameBoard.goesTickless {tps : ℕ} {s s' : Tickless} {nTicks : UInt64} (h : SameBoard s s')
    (hs : GoesTickless tps s nTicks) : GoesTickless tps s' nTicks := by
  obtain ⟨hcur, us, c, timer, hpos, hcheck, htimer⟩ := goesTickless_iff.1 hs
  refine goesTickless_iff.2 ⟨by rw [h.current, hcur], us, c, timer, hpos, ?_, ?_⟩
  · rw [h.check, hcheck]
  · rw [oneShotTimerOf, h.timers]
    exact htimer

/-- **One idle period** runs through, and leaves the CPU as ready for the next. -/
theorem idlePeriod_runs {tps : ℕ} {s : Tickless} {nTicks : UInt64} (h : GoesTickless tps s nTicks)
    (passed : UInt64) :
    ∃ s', runSteps (ticklessStep tps) s (idlePeriod nTicks passed) = some s' ∧ SameBoard s s' ∧
      idleTime s' = idleTime s + passed.toNat := by
  obtain ⟨hcur, us, c, timer, hpos, hcheck, htimer⟩ := goesTickless_iff.1 h
  have henter := ticklessEnter_start hcheck hcur hpos true
  rw [htimer, Option.map_some] at henter
  obtain ⟨s₁, hs₁⟩ : ∃ s₁ : Tickless, s₁ = { s with
      isCurrentTickless := true
      cStateEntered := c
      log := s.log ++ .oneShotStart us c :: goTickless true c } := ⟨_, rfl⟩
  rw [← hs₁] at henter
  have htimer₁ : oneShotTimerOf s₁ s₁.cStateEntered = some timer := by
    rw [hs₁]
    exact htimer
  have hcur₁ : s₁.isCurrentTickless = true := by rw [hs₁]
  have hexit := @ticklessExit_passed tps s₁ hcur₁ passed
  rw [htimer₁, Option.map_some] at hexit
  have hrun : runSteps (ticklessStep tps) s (idlePeriod nTicks passed) =
      ticklessExit tps s₁ (some passed) := by
    simp only [idlePeriod, runSteps, ticklessStep, henter, hexit]
  refine ⟨_, hrun.trans hexit, ?_, ?_⟩
  · rw [hs₁]
    exact ⟨rfl, rfl, rfl, hcur.symm⟩
  · simp [hs₁, idleTime, passedBy, passedBy_wakeUp, goTickless]

/-- **Idle periods one after the other** run through. -/
theorem idlePeriods_run {tps : ℕ} {periods : List (UInt64 × UInt64)} {s : Tickless}
    (h : ∀ p ∈ periods, GoesTickless tps s p.1) :
    ∃ s', runSteps (ticklessStep tps) s (periods.flatMap fun p => idlePeriod p.1 p.2) = some s' ∧
      idleTime s' = idleTime s + (periods.map fun p => p.2.toNat).sum := by
  induction periods generalizing s with
  | nil => exact ⟨s, rfl, rfl⟩
  | cons p periods ih =>
    obtain ⟨s₁, hrun, hsame, htime⟩ := idlePeriod_runs (h p List.mem_cons_self) p.2
    obtain ⟨s', hrest, htime'⟩ := ih fun q hq => hsame.goesTickless (h q (List.mem_cons_of_mem p hq))
    refine ⟨s', ?_, ?_⟩
    · rw [List.flatMap_cons, runSteps_append, hrun, Option.bind_some, hrest]
    · rw [htime', htime, List.map_cons, List.sum_cons, Nat.add_assoc]

/-- **No drift builds up.** Over idle periods of any lengths the ticks announced are the whole ticks of the
time they take together, and less than a tick is carried. -/
theorem idle_keeps_time {tps : ℕ} (htps : tps ∣ 1000000) {cStateConfig : UInt32}
    {cStateLatency : ℕ → UInt32} {cStateOneShotTimer : Vector (Option OneShotTimer) 31}
    {periods : List (UInt64 × UInt64)}
    (hidle : ∀ p ∈ periods,
      GoesTickless tps (ticklessInit cStateConfig cStateLatency cStateOneShotTimer) p.1)
    (hshort : ∀ p ∈ periods, p.2.toNat < 2 ^ 43) :
    ∃ s', runSteps (ticklessStep tps) (ticklessInit cStateConfig cStateLatency cStateOneShotTimer)
        (periods.flatMap fun p => idlePeriod p.1 p.2) = some s' ∧
      announced s' = (periods.map fun p => p.2.toNat).sum / usPerTick tps ∧
      s'.usRemain < usPerTick tps := by
  obtain ⟨s', hrun, htime⟩ := idlePeriods_run hidle
  have hstart : KeepsTime tps (ticklessInit cStateConfig cStateLatency cStateOneShotTimer) :=
    ⟨by simp [announced, idleTime, ticklessInit], usPerTick_pos htps⟩
  have hshort' : ∀ a ∈ periods.flatMap fun p => idlePeriod p.1 p.2, ShortPeriod a := by
    intro a ha
    obtain ⟨p, hp, ha⟩ := List.mem_flatMap.1 ha
    obtain rfl | rfl : a = .enter p.1 true ∨ a = .exit (some p.2) := by simpa [idlePeriod] using ha
    · trivial
    · intro us hus
      obtain rfl := Option.some.inj hus
      exact hshort p hp
  have hkeeps := run_keeps_time htps hstart hshort' hrun
  refine ⟨s', hrun, ?_, hkeeps.below⟩
  rw [hkeeps.announced_eq, htime]
  change (0 + _) / _ = _
  rw [Nat.zero_add]

/-- Two idle periods in C1 with ticks of 10 ms; neither is a whole number of ticks. -/
theorem idle_keeps_time_example :
    ∃ s', runSteps (ticklessStep 100)
        (ticklessInit 2 (fun _ => 0) (Vector.replicate 31 (some { oneShotSecondsMax := some 10 })))
        ([(100, 12345), (100, 7655)].flatMap fun p : UInt64 × UInt64 => idlePeriod p.1 p.2) = some s' ∧
      announced s' =
        ([(100, 12345), (100, 7655)].map fun p : UInt64 × UInt64 => p.2.toNat).sum / usPerTick 100 ∧
      s'.usRemain < usPerTick 100 := by
  have hidle : GoesTickless 100
      (ticklessInit 2 (fun _ => 0) (Vector.replicate 31 (some { oneShotSecondsMax := some 10 }))) 100 :=
    goesTickless_iff.2 ⟨rfl, 1000000, 1, { oneShotSecondsMax := some 10 }, by norm_num,
      by decide +kernel, by decide +kernel⟩
  refine idle_keeps_time (by norm_num) ?_ ?_
  · intro p hp
    obtain rfl | rfl : p = (100, 12345) ∨ p = (100, 7655) := by simpa using hp
    · exact hidle
    · exact hidle
  · intro p hp
    obtain rfl | rfl : p = (100, 12345) ∨ p = (100, 7655) := by simpa using hp
    · decide +kernel
    · decide +kernel

end GenieSdk.Analysis
