import GenieSdk.Model.Transition

/-!
# The divisor and the report of a transition

The number of intervals that are left is cut down to 16 bits before it is divided by: **an update divides
by zero exactly if something moves while the time left is within one interval above a multiple of
65536 intervals** (`transition_divisor_ne_zero_iff`).

The remaining time that is reported starts from the end of the transition on the clock of the node, since
the uptime is never subtracted: **it is right only as long as the uptime itself is below the unit**
(`remain_reported_iff`).
-/

set_option autoImplicit false

namespace GenieSdk.Analysis.Transition

open GenieSdk.Model

/-! ## The divisor -/

/-- The milliseconds after which the 16 bits of `step` come round. -/
def stepPeriod : ℕ := 65536 * 20

section Divisor

variable {elem : SigElem} {now : UInt32}

/-- The step in units of twenty milliseconds. -/
theorem transitionStep_eq (elem : SigElem) (now : UInt32) :
    transitionStep elem now = (elem.transEndTime - now).toNat / 20 % 65536 := by
  unfold transitionStep
  rw [UInt32.toNat_div]
  rfl

/-- Which of the times left are cut down to 0. -/
theorem transitionStep_eq_zero_iff :
    transitionStep elem now = 0 ↔ (elem.transEndTime - now).toNat % stepPeriod < 20 := by
  rw [transitionStep_eq]
  unfold stepPeriod
  omega

/-- A division by zero. -/
theorem zero_mem_divisors_iff : 0 ∈ transitionDivisors elem now ↔
    now ≤ elem.transEndTime - sigModelTransitionInterval ∧ transitionStep elem now = 0 ∧
      (elem.lightness.present ≠ elem.lightness.target ∨
        elem.colorTemperature.present ≠ elem.colorTemperature.target) := by
  unfold transitionDivisors
  split
  case isFalse hlate => simp [hlate]
  case isTrue hearly =>
    by_cases hl : elem.lightness.present = elem.lightness.target
    · by_cases hc : elem.colorTemperature.present = elem.colorTemperature.target
      · simp [hl, hc]
      · simp [hl, hc, hearly, eq_comm]
    · by_cases hc : elem.colorTemperature.present = elem.colorTemperature.target
      · simp [hl, hc, hearly, eq_comm]
      · simp [hl, hc, hearly, eq_comm]

/-- **The divisions of an update.** None of them is by zero exactly if nothing moves, the time for a step
is over, or the time left is not within one interval above a multiple of 65536 intervals. -/
theorem transition_divisor_ne_zero_iff (elem : SigElem) (now : UInt32) :
    0 ∉ transitionDivisors elem now ↔
      (elem.lightness.present = elem.lightness.target ∧
        elem.colorTemperature.present = elem.colorTemperature.target) ∨
      elem.transEndTime - sigModelTransitionInterval < now ∨
      20 ≤ (elem.transEndTime - now).toNat % stepPeriod := by
  rw [zero_mem_divisors_iff, transitionStep_eq_zero_iff, ← UInt32.not_lt, ← not_lt (b := 20)]
  tauto

end Divisor

/-- A light that is on its way. -/
def movingLight : SigElem where
  onoff := ⟨1, 1⟩
  lightness := ⟨0, 0xFFFF⟩
  colorTemperature := ⟨800, 800⟩
  scene := ⟨0, 0⟩
  delay := 0
  delayTimer := false
  trans := 0
  transStartTime := 0
  transEndTime := 0
  transTimer := true
  lastLightness := 0xFFFF
  lastColorTemperature := 800

/-- Two updates that divide by zero: 1310720 ms before the end of a transition of 30 minutes, and within the
last interval of a transition of one second that ends just after the uptime has come round. -/
theorem transition_divides_by_zero :
    0 ∈ transitionDivisors (movingLight.setTransition 0xC3 0 5000) (5000 + 1800000 - 1310720) ∧
      0 ∈ transitionDivisors (movingLight.setTransition 0x0A 0 (0 - 981)) 5 := by
  exact ⟨by decide, by decide⟩

/-! ## The report -/

/-- The milliseconds of unit `i`. -/
def unitMs (i : ℕ) : ℕ := (transTimes i).toNat

/-- The unit in which a time is encoded. -/
def unitOf (ms : ℕ) : ℕ :=
  if 62 * 10000 < ms then 3 else if 62 * 1000 < ms then 2 else if 62 * 100 < ms then 1 else 0

/-- The longest time that can be encoded. -/
def reportMax : ℕ := 62 * 600000

/-- The unit that a byte selects. -/
def byteUnit (byte : UInt8) : ℕ := unitMs (byte >>> 6).toNat

/-- The transition takes this long. -/
def duration (elem : SigElem) : ℕ := (sigModelTransitionGetTransitionTime elem.trans).toNat

/-- The time that is left at uptime `t`. -/
def remaining (elem : SigElem) (t : ℤ) : ℤ := max 0 (duration elem - (t - elem.transStartTime.toNat))

/-- The byte reported at uptime `t` stands for the time that is left, rounded down to its unit. -/
def RemainReported (elem : SigElem) (t : ℤ) : Prop :=
  let byte := sigModelTransitionGetRemainTimeByte elem false t
  ((sigModelTransitionGetTransitionTime byte).toNat : ℤ) =
    remaining elem t / byteUnit byte * byteUnit byte

/-- The end of the transition, as 32 bits keep it. -/
def endTime (elem : SigElem) : ℕ := (elem.transStartTime.toNat + duration elem) % 2 ^ 32

/-- The uptime, counted from the last time that the end of the transition came round. -/
def uptimeAt (elem : SigElem) (t : ℤ) : ℤ :=
  t - (elem.transStartTime.toNat + duration elem - endTime elem)

/-- **The condition**: the uptime takes nothing away from the units of the end time. If the end time is too
long to be encoded, less than 100 ms are left. -/
def ReportFits (elem : SigElem) (t : ℤ) : Prop :=
  let e := endTime elem
  let unit := unitMs (unitOf e)
  if e ≤ reportMax then
    e % unit < uptimeAt elem t + unit ∧ (uptimeAt elem t ≤ e % unit ∨ e < unit)
  else e < uptimeAt elem t + 100

section Report

variable {elem : SigElem} {time : UInt32} {t : ℤ} {i v : ℕ}

/-- A byte with its value and unit. -/
theorem pack_spec : ∀ (i : Fin 4) (v : Fin 63),
    (UInt8.ofNat v ||| transitionTimeUnitBit i) &&& 0x3F = UInt8.ofNat v ∧
      UInt8.ofNat v ≠ 0x3F ∧ (UInt8.ofNat v).toUInt32.toNat = v ∧
      ((UInt8.ofNat v ||| transitionTimeUnitBit i) >>> 6).toNat = i := by decide

/-- What a packed byte stands for. -/
theorem decode_pack (hi : i < 4) (hv : v ≤ 62) :
    byteUnit (UInt8.ofNat v ||| transitionTimeUnitBit i) = unitMs i ∧
      (sigModelTransitionGetTransitionTime (UInt8.ofNat v ||| transitionTimeUnitBit i)).toNat =
        v * unitMs i := by
  obtain ⟨hval, hne, hnat, hunit⟩ := pack_spec ⟨i, hi⟩ ⟨v, by omega⟩
  simp only at hval hne hnat hunit
  unfold byteUnit sigModelTransitionGetTransitionTime
  rw [hval, hunit, if_neg hne]
  refine ⟨rfl, ?_⟩
  have hle : unitMs i ≤ 600000 := by
    have : ∀ i : Fin 4, unitMs i ≤ 600000 := by decide
    exact this ⟨i, hi⟩
  have hprod : v * unitMs i ≤ 62 * 600000 := Nat.mul_le_mul hv hle
  rw [UInt32.toNat_mul, hnat]
  exact Nat.mod_eq_of_lt (by unfold unitMs at hprod; omega)

/-- There are four units. -/
theorem unitOf_lt (ms : ℕ) : unitOf ms < 4 := by
  unfold unitOf
  split_ifs <;> decide

/-- The encoder, in natural numbers. -/
theorem getTransitionByte_eq (time : UInt32) : getTransitionByte time =
    if reportMax < time.toNat then 0
    else UInt8.ofNat (time.toNat / unitMs (unitOf time.toNat)) |||
      transitionTimeUnitBit (unitOf time.toNat) := by
  have h3 : transTimes 3 * transitionTimeValueMax < time ↔ reportMax < time.toNat := UInt32.lt_iff_toNat_lt
  have h2 : transTimes 2 * transitionTimeValueMax < time ↔ 62 * 10000 < time.toNat :=
    UInt32.lt_iff_toNat_lt
  have h1 : transTimes 1 * transitionTimeValueMax < time ↔ 62 * 1000 < time.toNat :=
    UInt32.lt_iff_toNat_lt
  have h0 : transTimes 0 * transitionTimeValueMax < time ↔ 62 * 100 < time.toNat :=
    UInt32.lt_iff_toNat_lt
  have hquot : ∀ d : UInt32, (time / d).toUInt8 = UInt8.ofNat (time.toNat / d.toNat) := by
    intro d
    apply UInt8.toNat_inj.1
    rw [UInt32.toNat_toUInt8, UInt32.toNat_div, UInt8.toNat_ofNat']
  unfold getTransitionByte unitOf
  simp only [h3, h2, h1, h0]
  split_ifs
  · rfl
  · rw [hquot]
    rfl
  · rw [hquot]
    rfl
  · rw [hquot]
    rfl
  · rw [hquot]
    exact (UInt8.or_zero).symm

/-- **The encoder and the decoder agree**: the time comes back, rounded down to its unit. -/
theorem decode_getTransitionByte (h : time.toNat ≤ reportMax) :
    byteUnit (getTransitionByte time) = unitMs (unitOf time.toNat) ∧
      (sigModelTransitionGetTransitionTime (getTransitionByte time)).toNat =
        time.toNat / unitMs (unitOf time.toNat) * unitMs (unitOf time.toNat) := by
  rw [getTransitionByte_eq, if_neg (not_lt.2 h)]
  apply decode_pack (unitOf_lt _)
  unfold unitOf reportMax at *
  split_ifs
  · change time.toNat / 600000 ≤ 62
    omega
  · change time.toNat / 10000 ≤ 62
    omega
  · change time.toNat / 1000 ≤ 62
    omega
  · change time.toNat / 100 ≤ 62
    omega

/-- The byte that is reported once the transition has started. -/
theorem remainTimeByte_eq (hstart : (elem.transStartTime.toNat : ℤ) < t) :
    sigModelTransitionGetRemainTimeByte elem false t =
      getTransitionByte (UInt32.ofNat (elem.transStartTime.toNat + duration elem)) := by
  unfold sigModelTransitionGetRemainTimeByte
  rw [if_pos ⟨rfl, hstart⟩]
  dsimp only
  change (if (0 - (elem.transStartTime.toNat : ℤ)) < (duration elem : ℤ) then _ else _) = _
  split
  case isTrue =>
    congr 2
    unfold duration
    omega
  case isFalse hzero =>
    have hs : elem.transStartTime.toNat = 0 := by omega
    have hd : duration elem = 0 := by omega
    rw [hs, hd]
    decide

/-- Two times are the same in a unit. -/
theorem same_units_iff {u : ℕ} (hu : 0 < u) (e : ℕ) (up : ℤ) :
    ((e / u * u : ℕ) : ℤ) = max 0 (e - up) / u * u ↔
      ((e % u : ℕ) : ℤ) < up + u ∧ (up ≤ (e % u : ℕ) ∨ e < u) := by
  have hdiv := Nat.div_add_mod e u
  have hmod := Nat.mod_lt e hu
  have hpos : (0 : ℤ) < u := by exact_mod_cast hu
  have hfloor : ((e / u * u : ℕ) : ℤ) = max 0 (e - up) / u * u ↔
      ((e / u * u : ℕ) : ℤ) ≤ max 0 (e - up) ∧ max 0 (e - up) < (e / u * u : ℕ) + u := by
    push_cast
    rw [mul_left_inj' hpos.ne']
    constructor
    · intro h
      rw [h]
      exact ⟨Int.ediv_mul_le _ hpos.ne', Int.lt_ediv_add_one_mul_self _ hpos |>.trans_eq (by ring)⟩
    · rintro ⟨hle, hlt⟩
      apply le_antisymm
      · exact Int.le_ediv_of_mul_le hpos hle
      · apply Int.lt_add_one_iff.1
        apply Int.ediv_lt_of_lt_mul hpos
        rw [add_mul, one_mul]
        exact hlt
  have hq : (e : ℤ) = (e / u * u : ℕ) + (e % u : ℕ) := by
    rw [← Nat.cast_add, Nat.mul_comm, hdiv]
  have hsmall : e < u ↔ e / u * u = 0 := by
    rw [Nat.mul_eq_zero, Nat.div_eq_zero_iff]
    omega
  rw [hfloor, hsmall]
  generalize e / u * u = q at *
  generalize e % u = m at *
  omega

/-- **The remaining time in a status message.** Once the transition has started, the reported byte is the time
that is left, rounded down to its unit, exactly if the uptime itself takes nothing away from the units of
the end time. -/
theorem remain_reported_iff (elem : SigElem) (t : ℤ) (hstart : (elem.transStartTime.toNat : ℤ) < t) :
    RemainReported elem t ↔ ReportFits elem t := by
  have htime : (UInt32.ofNat (elem.transStartTime.toNat + duration elem)).toNat = endTime elem :=
    UInt32.toNat_ofNat'
  have hrem : remaining elem t = max 0 ((endTime elem : ℤ) - uptimeAt elem t) := by
    unfold remaining uptimeAt
    congr 1
    ring
  unfold RemainReported ReportFits
  dsimp only
  rw [remainTimeByte_eq hstart, hrem]
  split
  case isTrue hle =>
    obtain ⟨hunit, hval⟩ := decode_getTransitionByte (htime.symm ▸ hle)
    rw [hunit, hval, htime]
    have hpos : 0 < unitMs (unitOf (endTime elem)) := by
      have : ∀ i : Fin 4, 0 < unitMs i := by decide
      exact this ⟨_, unitOf_lt _⟩
    exact same_units_iff hpos _ _
  case isFalse hlong =>
    rw [getTransitionByte_eq, htime, if_pos (not_le.1 hlong)]
    have hlarge : (100 : ℤ) ≤ endTime elem := by
      unfold reportMax at hlong
      omega
    have hzero : byteUnit 0 = 100 := by decide
    have hdec : (sigModelTransitionGetTransitionTime 0).toNat = 0 := by decide
    rw [hzero, hdec]
    omega

end Report

/-- A transition of 6200 ms from 5000 ms on. -/
def shortTransition : SigElem := { movingLight with trans := 0x3E, transStartTime := 5000 }

/-- At the end of its first second the transition reports 11 s. -/
theorem remain_reported_iff_short : (shortTransition.transStartTime.toNat : ℤ) < 6000 ∧
    (RemainReported shortTransition 6000 ↔ ReportFits shortTransition 6000) :=
  ⟨by decide, remain_reported_iff shortTransition 6000 (by decide)⟩

/-- A remaining time of 5.2 seconds is reported as eleven. -/
theorem remain_overstated : (shortTransition.transStartTime.toNat : ℤ) < 6000 ∧
    remaining shortTransition 6000 = 5200 ∧
    (sigModelTransitionGetTransitionTime
      (sigModelTransitionGetRemainTimeByte shortTransition false 6000)).toNat = 11000 ∧
    ¬ RemainReported shortTransition 6000 := by
  refine ⟨by decide, by decide, by decide, ?_⟩
  unfold RemainReported
  decide

end GenieSdk.Analysis.Transition
