import GenieSdk.Analysis.Bitmap
import GenieSdk.Model.Tickless

/-!
# Tickless idle does not oversleep

`tickless_enter_check` looks for a C-state by the idle time before it is cut down to what the C-state's timer
supports, and takes the latency off afterwards, in unsigned arithmetic. **The timer that `tickless_enter`
starts is over in time exactly when the latency was still there to be taken off** (`never_oversleeps_iff`);
when the loop finds no C-state the timer is that of C1 while the limits are those of C0, and the two have to
agree.
-/

set_option autoImplicit false

namespace GenieSdk.Analysis

open GenieSdk.Model

/-! ## What is claimed -/

/-- The most a timer supports, in microseconds: nothing, if it does not say. -/
def maxSupportedUs (timer : OneShotTimer) : ℕ :=
  (timer.oneShotSecondsMax.map fun secs => 1000000 * secs.toNat).getD 0

/-- After `us` and the latency of the C-state, the next kernel event is not over. -/
def BeforeEvent (tps : ℕ) (nTicks : UInt64) (us : ℕ) : Prop :=
  nTicks.toNat = rhinoWaitForever ∨ us * tps ≤ 1000000 * nTicks.toNat

/-- The timer of the C-state exists, and with `us` it wakes the CPU up in time. -/
def SleepsInTime (tps : ℕ) (s : Tickless) (nTicks : UInt64) (us cState : ℕ) : Prop :=
  BeforeEvent tps nTicks (us + (s.cStateLatency cState).toNat) ∧
    ∃ timer, s.cStateOneShotTimer[cState]? = some (some timer) ∧
      us + (s.cStateLatency cState).toNat ≤ maxSupportedUs timer

/-- The call returns, and a timer that it starts is that of the C-state entered and wakes the CPU up in
time. -/
def NeverOversleeps (tps : ℕ) (s : Tickless) (nTicks : UInt64) (ret : Bool) : Prop :=
  ∃ s' log, ticklessEnter tps s nTicks ret = some s' ∧ s'.log = s.log ++ log ∧
    ∀ us cState, .oneShotStart us cState ∈ log →
      s'.cStateEntered = cState ∧ SleepsInTime tps s nTicks us cState

/-- The C-state is enabled and its latency is less than `us`. -/
def CStateFits (s : Tickless) (us cState : ℕ) : Prop :=
  0 < cState ∧ s.cStateConfig.toNat.testBit cState = true ∧ (s.cStateLatency cState).toNat < us

/-- The timer of the C-state, if there is one. -/
def oneShotTimerOf (s : Tickless) (cState : ℕ) : Option OneShotTimer := (s.cStateOneShotTimer[cState]?).join

/-- The idle time, cut down to what the timer of the C-state supports. -/
def cutDownUs (tps : ℕ) (s : Tickless) (nTicks : UInt64) (cState : ℕ) : ℕ :=
  min (sleepTimeUs tps nTicks) (oneShotMaxUsSupport (oneShotTimerOf s cState))

/-- The limits of C0 start no timer, or C1 has one that is over in time with them. -/
def FallbackOk (tps : ℕ) (s : Tickless) (nTicks : UInt64) : Prop :=
  cutDownUs tps s nTicks 0 = (s.cStateLatency 0).toNat ∨
    (s.cStateLatency 0).toNat < cutDownUs tps s nTicks 0 ∧
      BeforeEvent tps nTicks
        (cutDownUs tps s nTicks 0 - (s.cStateLatency 0).toNat + (s.cStateLatency 1).toNat) ∧
      ∃ timer, oneShotTimerOf s 1 = some timer ∧
        cutDownUs tps s nTicks 0 + (s.cStateLatency 1).toNat ≤
          maxSupportedUs timer + (s.cStateLatency 0).toNat

/-- **The condition.** The deepest C-state that fits has an entry for its timer, and the timer supports its
latency; if none fits, `FallbackOk`. When the CPU is tickless already no timer is started. -/
def EnterOk (tps : ℕ) (s : Tickless) (nTicks : UInt64) : Prop :=
  (∀ cState, CStateFits s (sleepTimeUs tps nTicks) cState →
    (∀ deeper, CStateFits s (sleepTimeUs tps nTicks) deeper → deeper ≤ cState) →
      cState ≠ 31 ∧ (s.isCurrentTickless = true ∨
        (s.cStateLatency cState).toNat ≤ oneShotMaxUsSupport (oneShotTimerOf s cState))) ∧
  ((∀ cState, ¬ CStateFits s (sleepTimeUs tps nTicks) cState) →
    s.isCurrentTickless = true ∨ FallbackOk tps s nTicks)

/-! ## The C-state that is found -/

/-- The highest state that is configured. -/
theorem maxCState_spec {cfg : ℕ} (h0 : 0 < cfg) (hx : cfg < 2 ^ 32) :
    2 ^ maxCState cfg ≤ cfg ∧ cfg < 2 ^ (maxCState cfg + 1) := by
  obtain ⟨c, hc, hlo, hhi⟩ := bitLen_spec h0 hx
  have hfirst : krhinoFindFirstBit [cfg] = some (krhinoClz32 cfg) := if_neg h0.ne'
  have hmax : maxCState cfg = c := by
    rw [maxCState, if_neg h0.ne', hfirst, Option.getD_some]
    omega
  rw [hmax]
  exact ⟨hlo, hhi⟩

/-- The highest bit is set, and no bit above it. -/
theorem maxCState_bits {cfg : ℕ} (h0 : 0 < cfg) (hx : cfg < 2 ^ 32) :
    cfg.testBit (maxCState cfg) = true ∧ ∀ d, cfg.testBit d = true → d ≤ maxCState cfg := by
  obtain ⟨hlo, hhi⟩ := maxCState_spec h0 hx
  refine ⟨?_, fun d hd => ?_⟩
  · rw [Nat.testBit_eq_decide_div_mod_eq, Nat.div_eq_of_lt_le (k := 1)]
    · rfl
    · omega
    · rw [pow_succ] at hhi
      omega
  · by_contra hlt
    have hpow : 2 ^ (maxCState cfg + 1) ≤ 2 ^ d := Nat.pow_le_pow_right (by norm_num) (by omega)
    rw [Nat.testBit_lt_two_pow (by omega)] at hd
    cases hd

/-- Without its highest bit, a word is below it. -/
theorem clear_maxCState {cfg rounds : ℕ} (h0 : 0 < cfg) (hx : cfg < 2 ^ 32)
    (hle : maxCState cfg ≤ rounds) :
    cfg &&& (0xFFFFFFFF ^^^ 2 ^ maxCState cfg) < 2 ^ rounds := by
  obtain ⟨_, htop⟩ := maxCState_bits h0 hx
  apply Nat.lt_pow_two_of_testBit
  intro d hd
  by_cases hd32 : d < 32
  · rw [testBit_clear hd32, Bool.and_eq_false_iff]
    by_cases hdm : maxCState cfg = d
    · simp [hdm]
    · left
      rw [Bool.eq_false_iff]
      intro hbit
      have := htop d hbit
      omega
  · apply Nat.testBit_lt_two_pow
    apply lt_of_le_of_lt Nat.and_le_left
    exact hx.trans_le (Nat.pow_le_pow_right (by norm_num) (by omega))

/-- **What the loop finds** is the deepest enabled C-state whose latency is less than the idle time, and C0 if
there is none. -/
theorem scanCStates_spec {latency : ℕ → UInt32} {us rounds cfg : ℕ} (hcfg : cfg < 2 ^ rounds)
    (h0 : 0 < rounds) (h32 : rounds ≤ 32) :
    ∃ c, scanCStates latency us rounds cfg = some c ∧
      (∀ d, c < d → cfg.testBit d = true → us ≤ (latency d).toNat) ∧
      (0 < c → cfg.testBit c = true ∧ (latency c).toNat < us) := by
  induction rounds generalizing cfg with
  | zero => omega
  | succ rounds ih =>
    have hx : cfg < 2 ^ 32 := hcfg.trans_le (Nat.pow_le_pow_right (by norm_num) h32)
    have hzero : ∀ d, cfg.testBit d = true → 0 < cfg := fun d hd =>
      Nat.pos_of_ne_zero fun h => by simp [h] at hd
    rw [scanCStates]
    by_cases hmax : maxCState cfg = 0
    · -- only bit 0 is left, if any
      refine ⟨0, if_pos hmax, fun d hd hbit => ?_, fun h => absurd h (lt_irrefl 0)⟩
      have := (maxCState_bits (hzero d hbit) hx).2 d hbit
      omega
    · have hpos : 0 < cfg := Nat.pos_of_ne_zero fun h => hmax (by simp [maxCState, h])
      obtain ⟨hbit, htop⟩ := maxCState_bits hpos hx
      rw [if_neg hmax]
      by_cases hlat : (latency (maxCState cfg)).toNat < us
      · refine ⟨maxCState cfg, if_pos hlat, fun d hd hd' => ?_, fun _ => ⟨hbit, hlat⟩⟩
        have := htop d hd'
        omega
      · rw [if_neg hlat]
        have hle : maxCState cfg ≤ rounds := by
          have hlt : 2 ^ maxCState cfg < 2 ^ (rounds + 1) :=
            (maxCState_spec hpos hx).1.trans_lt hcfg
          have := (Nat.pow_lt_pow_iff_right (by norm_num)).1 hlt
          omega
        -- the bit cleared was the highest, so one round less suffices for the rest
        obtain ⟨c, hc, hdeep, hfit⟩ := ih (clear_maxCState hpos hx hle) (by omega) (by omega)
        refine ⟨c, hc, fun d hd hd' => ?_, fun hc0 => ?_⟩
        · by_cases hdm : maxCState cfg = d
          · rw [← hdm]
            omega
          · have := htop d hd'
            apply hdeep d hd
            rw [testBit_clear (by omega), hd']
            simp [hdm]
        · obtain ⟨hcbit, hclat⟩ := hfit hc0
          rw [Nat.testBit_and, Bool.and_eq_true] at hcbit
          exact ⟨hcbit.1, hclat⟩

/-- The loop of `tickless_enter_check` in the terms of `EnterOk`. -/
theorem cStateFound (s : Tickless) (us : ℕ) :
    ∃ c, scanCStates s.cStateLatency us 32 s.cStateConfig.toNat = some c ∧ c < 32 ∧
      (∀ d, CStateFits s us d → d ≤ c) ∧ (0 < c → CStateFits s us c) := by
  have hcfg : s.cStateConfig.toNat < 2 ^ 32 := s.cStateConfig.toNat_lt
  obtain ⟨c, hc, hdeep, hfit⟩ := @scanCStates_spec s.cStateLatency us 32 _ hcfg (by norm_num) le_rfl
  refine ⟨c, hc, ?_, fun d hd => ?_, fun h0 => ⟨h0, hfit h0⟩⟩
  · by_contra h32
    have hpow : 2 ^ 32 ≤ 2 ^ c := Nat.pow_le_pow_right (by norm_num) (by omega)
    have hbit := (hfit (by omega)).1
    rw [Nat.testBit_lt_two_pow (by omega)] at hbit
    cases hbit
  · by_contra hlt
    have := hdeep d (by omega) hd.2.1
    have := hd.2.2
    omega

/-! ## The timer that is started -/

/-- The timer of a state. -/
theorem oneShotTimerOf_eq_some {s : Tickless} {c : ℕ} {timer : OneShotTimer} :
    oneShotTimerOf s c = some timer ↔ s.cStateOneShotTimer[c]? = some (some timer) := by
  rw [oneShotTimerOf, Option.join_eq_some_iff]

/-- The check, once a state is found: the time is cut down and the latency taken off. -/
theorem ticklessEnterCheck_eq {tps : ℕ} {s : Tickless} {nTicks : UInt64} {c : ℕ}
    (hc : scanCStates s.cStateLatency (sleepTimeUs tps nTicks) 32 s.cStateConfig.toNat = some c)
    (toSet : ℕ) :
    ticklessEnterCheck tps s nTicks toSet =
      if c < 31 then
        some ((cutDownUs tps s nTicks c + 2 ^ 64 - (s.cStateLatency c).toNat) % 2 ^ 64,
          if c = 0 then toSet else c)
      else none := by
  rw [ticklessEnterCheck, hc, Option.bind_some]
  by_cases h31 : c < 31
  · have hmin : ∀ a b : ℕ, (if a > b then b else a) = min a b := by
      intro a b
      split <;> omega
    rw [if_pos h31, cutDownUs, oneShotTimerOf, Vector.getElem?_eq_getElem h31, Option.map_some, hmin]
    rfl
  · rw [if_neg h31, Vector.getElem?_eq_none (by omega)]
    rfl

/-- What is done once a C-state is entered. -/
def goTickless (current : Bool) (c : ℕ) : List TicklessEvent :=
  if current then [.systickSuspend, .cStateSet c] else []

/-- Without a sleep time, or when the CPU is tickless already, no timer is started. -/
theorem ticklessEnter_no_start {tps : ℕ} {s : Tickless} {nTicks : UInt64} {us c : ℕ}
    (h : ticklessEnterCheck tps s nTicks 1 = some (us, c))
    (hno : s.isCurrentTickless = true ∨ us = 0) (ret : Bool) :
    ticklessEnter tps s nTicks ret =
      some { s with cStateEntered := c, log := s.log ++ goTickless s.isCurrentTickless c } := by
  have hcond : (decide (0 < us) && !s.isCurrentTickless) = false := by
    obtain hcur | rfl := hno
    · simp [hcur]
    · rfl
  unfold ticklessEnter goTickless
  simp only [h, Option.bind_some, hcond, Bool.false_eq_true, if_false, Option.map_some]
  cases s.isCurrentTickless with
  | true => rfl
  | false => simp

/-- Otherwise the timer of the C-state to set is started. -/
theorem ticklessEnter_start {tps : ℕ} {s : Tickless} {nTicks : UInt64} {us c : ℕ}
    (h : ticklessEnterCheck tps s nTicks 1 = some (us, c)) (hcur : s.isCurrentTickless = false)
    (hus : 0 < us) (ret : Bool) :
    ticklessEnter tps s nTicks ret = (oneShotTimerOf s c).map fun _ =>
      { s with
        isCurrentTickless := ret
        cStateEntered := c
        log := s.log ++ .oneShotStart us c :: goTickless ret c } := by
  unfold ticklessEnter ticklessOneShotStart oneShotTimerOf goTickless
  simp only [h, Option.bind_some, hus, hcur, decide_true, Bool.not_false, Bool.and_self, if_true,
    Option.map_map]
  cases (s.cStateOneShotTimer[c]?).join with
  | none => rfl
  | some timer => cases ret <;> simp

/-- What the call does once the check has returned. -/
theorem neverOversleeps_of_check {tps : ℕ} {s : Tickless} {nTicks : UInt64} {us c : ℕ}
    (h : ticklessEnterCheck tps s nTicks 1 = some (us, c)) (ret : Bool) :
    NeverOversleeps tps s nTicks ret ↔
      s.isCurrentTickless = true ∨ us = 0 ∨ SleepsInTime tps s nTicks us c := by
  have hquiet : ∀ current us' c', .oneShotStart us' c' ∉ goTickless current c := by
    intro current us' c'
    cases current <;> simp [goTickless]
  by_cases hno : s.isCurrentTickless = true ∨ us = 0
  · refine ⟨fun _ => hno.imp_right Or.inl, fun _ => ?_⟩
    refine ⟨_, _, ticklessEnter_no_start h hno ret, rfl, fun us' c' hmem => ?_⟩
    exact absurd hmem (hquiet s.isCurrentTickless us' c')
  · obtain ⟨hcur, hus⟩ := not_or.1 hno
    rw [Bool.not_eq_true] at hcur
    have hret := ticklessEnter_start h hcur (Nat.pos_of_ne_zero hus) ret
    constructor
    · rintro ⟨s', log, hs', hlog, hall⟩
      rw [hret, Option.map_eq_some_iff] at hs'
      obtain ⟨timer, -, rfl⟩ := hs'
      obtain rfl := List.append_cancel_left hlog
      exact Or.inr (Or.inr (hall us c (by simp)).2)
    · rintro (htrue | hzero | hin)
      · rw [hcur] at htrue
        cases htrue
      · exact absurd hzero hus
      · obtain ⟨timer, htimer, -⟩ := hin.2
        rw [oneShotTimerOf_eq_some.2 htimer, Option.map_some] at hret
        refine ⟨_, _, hret, rfl, fun us' c' hmem => ?_⟩
        obtain heq | hmem := List.mem_cons.1 hmem
        · cases heq
          exact ⟨rfl, hin⟩
        · exact absurd hmem (hquiet ret us' c')

/-! ## In time -/

/-- A product of 32 bits is at most the product. -/
theorem oneShotMaxUsSupport_le (timer : OneShotTimer) :
    oneShotMaxUsSupport (some timer) ≤ maxSupportedUs timer := by
  rcases timer with ⟨secs⟩
  cases secs with
  | none => exact le_rfl
  | some secs => exact Nat.mod_le _ _

/-- The time that a timer supports. -/
theorem maxSupportedUs_lt (timer : OneShotTimer) : maxSupportedUs timer < 2 ^ 52 := by
  rcases timer with ⟨secs⟩
  cases secs with
  | none => exact Nat.two_pow_pos 52
  | some secs =>
    have : secs.toNat < 2 ^ 32 := secs.toNat_lt
    change 1000000 * secs.toNat < 2 ^ 52
    omega

/-- And that it says it supports. -/
theorem oneShotMaxUsSupport_lt (timer : Option OneShotTimer) :
    oneShotMaxUsSupport timer < 2 ^ 32 := by
  rcases timer with _ | ⟨_ | secs⟩
  · exact Nat.two_pow_pos 32
  · exact Nat.two_pow_pos 32
  · exact Nat.mod_lt _ (Nat.two_pow_pos 32)

/-- The idle time that is worked out is over before the event. -/
theorem beforeEvent_of_le {tps us : ℕ} {nTicks : UInt64} (h : us ≤ sleepTimeUs tps nTicks) :
    BeforeEvent tps nTicks us := by
  by_cases hforever : nTicks.toNat = rhinoWaitForever
  · exact Or.inl hforever
  · right
    rw [sleepTimeUs, if_neg hforever] at h
    calc us * tps ≤ 1000000 * nTicks.toNat % 2 ^ 64 / tps * tps := Nat.mul_le_mul_right tps h
      _ ≤ 1000000 * nTicks.toNat % 2 ^ 64 := Nat.div_mul_le_self _ _
      _ ≤ 1000000 * nTicks.toNat := Nat.mod_le _ _

/-- Taking off more than there is leaves a time that no timer supports. -/
theorem not_sleepsInTime {tps : ℕ} {s : Tickless} {nTicks : UInt64} {m lat c : ℕ} (hlt : m < lat)
    (hlat : lat < 2 ^ 32) :
    ¬ ((m + 2 ^ 64 - lat) % 2 ^ 64 = 0 ∨ SleepsInTime tps s nTicks ((m + 2 ^ 64 - lat) % 2 ^ 64) c) := by
  have hmod : (m + 2 ^ 64 - lat) % 2 ^ 64 = m + 2 ^ 64 - lat := Nat.mod_eq_of_lt (by omega)
  rw [hmod]
  rintro (hzero | ⟨-, timer, -, hmax⟩)
  · omega
  · have := maxSupportedUs_lt timer
    omega

/-- With the limits of the C-state itself, the latency is all that can be in the way. -/
theorem sleepsInTime_iff {tps : ℕ} {s : Tickless} {nTicks : UInt64} {c : ℕ}
    (hfit : (s.cStateLatency c).toNat < sleepTimeUs tps nTicks) :
    ((cutDownUs tps s nTicks c + 2 ^ 64 - (s.cStateLatency c).toNat) % 2 ^ 64 = 0 ∨
      SleepsInTime tps s nTicks
        ((cutDownUs tps s nTicks c + 2 ^ 64 - (s.cStateLatency c).toNat) % 2 ^ 64) c) ↔
    (s.cStateLatency c).toNat ≤ oneShotMaxUsSupport (oneShotTimerOf s c) := by
  have hlat : (s.cStateLatency c).toNat < 2 ^ 32 := (s.cStateLatency c).toNat_lt
  have hcap := oneShotMaxUsSupport_lt (oneShotTimerOf s c)
  by_cases hle : (s.cStateLatency c).toNat ≤ oneShotMaxUsSupport (oneShotTimerOf s c)
  · refine ⟨fun _ => hle, fun _ => ?_⟩
    have hm : (s.cStateLatency c).toNat ≤ cutDownUs tps s nTicks c := le_min hfit.le hle
    have hmcap : cutDownUs tps s nTicks c ≤ oneShotMaxUsSupport (oneShotTimerOf s c) := min_le_right _ _
    have hmod : (cutDownUs tps s nTicks c + 2 ^ 64 - (s.cStateLatency c).toNat) % 2 ^ 64 =
        cutDownUs tps s nTicks c - (s.cStateLatency c).toNat := by omega
    rw [hmod]
    by_cases heq : cutDownUs tps s nTicks c = (s.cStateLatency c).toNat
    · exact Or.inl (by omega)
    · right
      have hsum : cutDownUs tps s nTicks c - (s.cStateLatency c).toNat + (s.cStateLatency c).toNat =
          cutDownUs tps s nTicks c := Nat.sub_add_cancel hm
      rw [SleepsInTime, hsum]
      refine ⟨beforeEvent_of_le (min_le_left _ _), ?_⟩
      -- a timer that supports a time at all is there
      cases htimer : oneShotTimerOf s c with
      | none =>
        rw [htimer] at hmcap
        change _ ≤ 0 at hmcap
        omega
      | some timer =>
        rw [htimer] at hmcap
        exact ⟨timer, oneShotTimerOf_eq_some.1 htimer, hmcap.trans (oneShotMaxUsSupport_le timer)⟩
  · refine ⟨fun h => absurd h (not_sleepsInTime ?_ hlat), fun h => absurd h hle⟩
    exact lt_of_le_of_lt (min_le_right _ _) (by omega)

/-- With the limits of C0 and the timer of C1. -/
theorem fallbackOk_iff (tps : ℕ) (s : Tickless) (nTicks : UInt64) :
    ((cutDownUs tps s nTicks 0 + 2 ^ 64 - (s.cStateLatency 0).toNat) % 2 ^ 64 = 0 ∨
      SleepsInTime tps s nTicks
        ((cutDownUs tps s nTicks 0 + 2 ^ 64 - (s.cStateLatency 0).toNat) % 2 ^ 64) 1) ↔
    FallbackOk tps s nTicks := by
  have hlat : (s.cStateLatency 0).toNat < 2 ^ 32 := (s.cStateLatency 0).toNat_lt
  have hm : cutDownUs tps s nTicks 0 < 2 ^ 32 :=
    lt_of_le_of_lt (min_le_right _ _) (oneShotMaxUsSupport_lt _)
  by_cases hlt : cutDownUs tps s nTicks 0 < (s.cStateLatency 0).toNat
  · refine ⟨fun h => absurd h (not_sleepsInTime hlt hlat), ?_⟩
    rintro (heq | ⟨hgt, -⟩)
    · omega
    · omega
  · have hmod : (cutDownUs tps s nTicks 0 + 2 ^ 64 - (s.cStateLatency 0).toNat) % 2 ^ 64 =
        cutDownUs tps s nTicks 0 - (s.cStateLatency 0).toNat := by omega
    rw [hmod, SleepsInTime, FallbackOk]
    by_cases heq : cutDownUs tps s nTicks 0 = (s.cStateLatency 0).toNat
    · exact ⟨fun _ => Or.inl heq, fun _ => Or.inl (by omega)⟩
    · constructor
      · rintro (hzero | ⟨hevent, timer, htimer, hmax⟩)
        · omega
        · exact Or.inr ⟨by omega, hevent, timer, oneShotTimerOf_eq_some.2 htimer, by omega⟩
      · rintro (hzero | ⟨hgt, hevent, timer, htimer, hmax⟩)
        · exact absurd hzero heq
        · exact Or.inr ⟨hevent, timer, oneShotTimerOf_eq_some.1 htimer, by omega⟩

/-- **When `tickless_enter` does not oversleep.** -/
theorem never_oversleeps_iff (tps : ℕ) (s : Tickless) (nTicks : UInt64) (ret : Bool) :
    NeverOversleeps tps s nTicks ret ↔ EnterOk tps s nTicks := by
  obtain ⟨c, hc, h32, hdeep, hfit⟩ := cStateFound s (sleepTimeUs tps nTicks)
  have hcheck := ticklessEnterCheck_eq hc 1
  unfold EnterOk
  by_cases h0 : c = 0
  · -- no C-state was found, and C1 is entered with the limits of C0
    have hnone : ∀ d, ¬ CStateFits s (sleepTimeUs tps nTicks) d := by
      intro d hd
      have := hdeep d hd
      have := hd.1
      omega
    subst h0
    rw [if_pos (by norm_num), if_pos rfl] at hcheck
    rw [neverOversleeps_of_check hcheck, fallbackOk_iff]
    exact ⟨fun h => ⟨fun d hd => absurd hd (hnone d), fun _ => h⟩, fun h => h.2 hnone⟩
  · have hfit := hfit (Nat.pos_of_ne_zero h0)
    have hsome : ¬ ∀ d, ¬ CStateFits s (sleepTimeUs tps nTicks) d := fun h => h c hfit
    have honly : ∀ d, CStateFits s (sleepTimeUs tps nTicks) d →
        (∀ deeper, CStateFits s (sleepTimeUs tps nTicks) deeper → deeper ≤ d) → d = c := by
      intro d hd htop
      exact le_antisymm (hdeep d hd) (htop c hfit)
    rw [if_neg h0] at hcheck
    by_cases h31 : c < 31
    · rw [if_pos h31] at hcheck
      rw [neverOversleeps_of_check hcheck, sleepsInTime_iff hfit.2.2]
      constructor
      · intro h
        refine ⟨fun d hd htop => ?_, fun hno => absurd hno hsome⟩
        obtain rfl := honly d hd htop
        exact ⟨by omega, h⟩
      · intro h
        exact (h.1 c hfit hdeep).2
    · rw [if_neg h31] at hcheck
      constructor
      · rintro ⟨s', log, hret, -⟩
        rw [ticklessEnter, hcheck] at hret
        cases hret
      · intro h
        exact absurd (show c = 31 by omega) (h.1 c hfit hdeep).1

/-- C2 is enabled, takes 40 ms to enter and leave, and every timer supports 4295 s. -/
def longTimers : Tickless :=
  ticklessInit 4 (fun cState => if cState = 2 then 40000 else 0)
    (Vector.replicate 31 (some { oneShotSecondsMax := some 4295 }))

/-- 4295 s are 32704 us modulo `2 ^ 32`, less than the 40 ms that are taken off. -/
theorem oversleeps_longTimers : ¬ NeverOversleeps 100 longTimers 1000 true := by
  have hcheck : ticklessEnterCheck 100 longTimers 1000 1 = some (2 ^ 64 - 7296, 2) := by
    decide +kernel
  rw [neverOversleeps_of_check hcheck]
  rintro (hcur | hzero | ⟨-, timer, htimer, hmax⟩)
  · cases hcur
  · cases hzero
  · have := maxSupportedUs_lt timer
    omega

end GenieSdk.Analysis
