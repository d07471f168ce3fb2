import GenieSdk.Analysis.TransitionTimes

/-!
# The steps of a transition

In its cycle a quantity moves by the distance that is left over the steps that are left, but by a least
distance at any rate, and it never passes its target (`Approaches`). Each update is such a cycle for both
quantities or ends with everything at its target, so **a transition ends after 101 updates at most,
whatever the uptimes are** (`transition_converges`).
-/

set_option autoImplicit false

namespace GenieSdk.Analysis.Transition

open GenieSdk.Model

/-- The quantity goes towards its target by `least`, or all the way. -/
def Approaches (least : ℕ) (v v' : SigValue UInt16) : Prop :=
  v'.target = v.target ∧
    (v.present.toNat < v.target.toNat ∧ v'.present.toNat ≤ v.target.toNat ∧
        (v'.present = v.target ∨ v.present.toNat + least ≤ v'.present.toNat) ∨
      v.target.toNat < v.present.toNat ∧ v.target.toNat ≤ v'.present.toNat ∧
        (v'.present = v.target ∨ v'.present.toNat + least ≤ v.present.toNat))

/-- A quantity that differs from its target gets closer and does not pass it; another stays. -/
def Toward (v v' : SigValue UInt16) : Prop :=
  v'.target = v.target ∧ (v.present = v.target → v'.present = v.present) ∧
    (v.present ≠ v.target →
      v.present < v'.present ∧ v'.present ≤ v.target ∨ v'.present < v.present ∧ v.target ≤ v'.present)

/-- What an update that goes on does. -/
structure MovesToward (elem elem' : SigElem) : Prop where
  onoff : elem'.onoff = ⟨elem.onoff.target, elem.onoff.target⟩
  lightness : Toward elem.lightness elem'.lightness
  colorTemperature : Toward elem.colorTemperature elem'.colorTemperature

/-- `COLOR_TEMPERATURE_MIN` to `COLOR_TEMPERATURE_MAX`. -/
def InRange (x : UInt16) : Prop := colorTemperatureMin ≤ x.toNat ∧ x.toNat ≤ colorTemperatureMax

/-- The colour temperature and its target. -/
def ColorInRange (elem : SigElem) : Prop :=
  InRange elem.colorTemperature.present ∧ InRange elem.colorTemperature.target

/-- The end of the transition is past, or less than 65536 intervals ahead. -/
def InWindow (elem : SigElem) (now : UInt32) : Prop :=
  elem.transEndTime ≤ now ∨ (elem.transEndTime - now).toNat < stepPeriod

/-- One update after the other. -/
def updates (elem : SigElem) (nows : List UInt32) : SigElem :=
  nows.foldl (fun elem now => (sigModelTransitionUpdate elem now).2.1) elem

/-- How far it is to the target. -/
def dist (v : SigValue UInt16) : ℕ :=
  (v.target.toNat - v.present.toNat) + (v.present.toNat - v.target.toNat)

/-- How many updates it takes at most until everything has arrived. -/
def updatesLeft (elem : SigElem) : ℕ :=
  max ((dist elem.lightness + deltaActualMin - 1) / deltaActualMin)
    ((dist elem.colorTemperature + deltaTempMin - 1) / deltaTempMin)

section Cycles

variable {v v' : SigValue UInt16} {step least : ℕ}

/-- A value that comes closer is between the old one and the target. -/
theorem Approaches.toward (h : Approaches least v v') (hleast : 0 < least) : Toward v v' := by
  obtain ⟨htarget, hway⟩ := h
  refine ⟨htarget, fun heq => ?_, fun _ => ?_⟩
  · rw [heq] at hway
    omega
  · rw [UInt16.lt_iff_toNat_lt, UInt16.le_iff_toNat_le, UInt16.lt_iff_toNat_lt, UInt16.le_iff_toNat_le]
    rcases hway with ⟨hlt, hle, harr | hmove⟩ | ⟨hlt, hle, harr | hmove⟩
    · rw [harr]
      omega
    · omega
    · rw [harr]
      omega
    · omega

/-- Each such cycle is one of the updates that are left. -/
theorem Approaches.dist_le (h : Approaches least v v') (hleast : 0 < least) :
    (dist v' + least - 1) / least + 1 ≤ (dist v + least - 1) / least := by
  obtain ⟨htarget, hway⟩ := h
  have hdist : dist v' = 0 ∧ 0 < dist v ∨ dist v' + least ≤ dist v := by
    unfold dist
    rw [htarget]
    rcases hway with ⟨hlt, hle, harr | hmove⟩ | ⟨hlt, hle, harr | hmove⟩
    · rw [harr]
      omega
    · omega
    · rw [harr]
      omega
    · omega
  rcases hdist with ⟨hzero, hpos⟩ | hmove
  · rw [hzero, Nat.div_eq_of_lt (by omega)]
    exact (Nat.one_le_div_iff hleast).2 (by omega)
  · rw [← Nat.add_div_right _ hleast]
    exact Nat.div_le_div_right (by omega)

/-- A number that 16 bits hold. -/
theorem toNat_ofNat16 {n : ℕ} (h : n < 65536) : (UInt16.ofNat n).toNat = n :=
  UInt16.toNat_ofNat_of_lt' h

/-- A step downwards that stays above the target. -/
theorem approaches_down {least d : ℕ} (hpos : 0 < least) (hd : least ≤ d)
    (hfits : v.target.toNat + d ≤ v.present.toNat) :
    Approaches least v ⟨UInt16.ofNat (v.present.toNat - d), v.target⟩ := by
  have hval : (UInt16.ofNat (v.present.toNat - d)).toNat = v.present.toNat - d :=
    toNat_ofNat16 ((Nat.sub_le ..).trans_lt v.present.toNat_lt)
  refine ⟨rfl, .inr ⟨by omega, ?_, .inr ?_⟩⟩
  · rw [hval]
    omega
  · rw [hval]
    omega

/-- **The lightness.** -/
theorem lightnessCycle_approaches (hne : v.present ≠ v.target) :
    Approaches deltaActualMin v (lightnessCycle v step).1 := by
  have hp := v.present.toNat_lt
  have ht := v.target.toNat_lt
  have hne' : v.present.toNat ≠ v.target.toNat := fun h => hne (UInt16.toNat_inj.1 h)
  unfold lightnessCycle lightnessMaxValue deltaActualMin
  dsimp only
  split
  case isTrue hup =>
    have hquot := Nat.div_le_self (v.target.toNat - v.present.toNat) step
    generalize (v.target.toNat - v.present.toNat) / step = q at hquot ⊢
    split
    case isTrue => exact ⟨rfl, .inl ⟨hup, le_refl _, .inl rfl⟩⟩
    case isFalse hfits =>
      have hval : (UInt16.ofNat (v.present.toNat + max q 655)).toNat = v.present.toNat + max q 655 :=
        toNat_ofNat16 (by omega)
      refine ⟨rfl, .inl ⟨hup, ?_, .inr ?_⟩⟩
      · rw [hval]
        omega
      · rw [hval]
        omega
  case isFalse hdown =>
    split
    case isTrue => exact ⟨rfl, .inr ⟨by omega, le_refl _, .inl rfl⟩⟩
    case isFalse => exact approaches_down (by omega) (by omega) (by omega)

/-- **The colour temperature**: upwards it goes twice, and the second time no further than its target. -/
theorem colorTemperatureCycle_approaches (hne : v.present ≠ v.target) (hp : InRange v.present)
    (ht : InRange v.target) : Approaches deltaTempMin v (colorTemperatureCycle v step).1 := by
  have hne' : v.present.toNat ≠ v.target.toNat := fun h => hne (UInt16.toNat_inj.1 h)
  unfold InRange colorTemperatureMin colorTemperatureMax at hp ht
  unfold colorTemperatureCycle colorTemperatureMin colorTemperatureMax deltaTempMin
  dsimp only
  split
  case isTrue hup =>
    have hquot := Nat.div_le_self (v.target.toNat - v.present.toNat) step
    generalize (v.target.toNat - v.present.toNat) / step = q at hquot ⊢
    have hdelta : (UInt16.ofNat (max q 192)).toNat = max q 192 := toNat_ofNat16 (by omega)
    split
    case isTrue =>
      have hover : v.target < UInt16.ofNat (max q 192) + v.target := by
        rw [UInt16.lt_iff_toNat_lt, UInt16.toNat_add, hdelta]
        omega
      simp only [if_pos hover]
      exact ⟨rfl, .inl ⟨hup, le_refl _, .inl rfl⟩⟩
    case isFalse hfits =>
      have hval : (UInt16.ofNat (v.present.toNat + max q 192)).toNat = v.present.toNat + max q 192 :=
        toNat_ofNat16 (by omega)
      have hnext : (UInt16.ofNat (max q 192) + UInt16.ofNat (v.present.toNat + max q 192)).toNat =
          max q 192 + (v.present.toNat + max q 192) := by
        rw [UInt16.toNat_add, hdelta, hval]
        omega
      dsimp only
      split
      case isTrue => exact ⟨rfl, .inl ⟨hup, le_refl _, .inl rfl⟩⟩
      case isFalse hnot =>
        rw [UInt16.not_lt, UInt16.le_iff_toNat_le] at hnot
        refine ⟨rfl, .inl ⟨hup, hnot, .inr ?_⟩⟩
        rw [hnext]
        omega
  case isFalse hdown =>
    split
    case isTrue => exact ⟨rfl, .inr ⟨by omega, le_refl _, .inl rfl⟩⟩
    case isFalse => exact approaches_down (by omega) (by omega) (by omega)

/-- A value that is settled is its target. -/
theorem settle_fst {α : Type} [DecidableEq α] (v : SigValue α) (attr : SigAttr) :
    (settle v attr).1 = ⟨v.target, v.target⟩ := by
  obtain ⟨present, target⟩ := v
  unfold settle
  dsimp only
  split
  case isTrue => rfl
  case isFalse heq =>
    rw [not_not] at heq
    rw [heq]

end Cycles

section Updates

variable {elem : SigElem} {now : UInt32} {nows : List UInt32} {v : SigValue UInt16} {least : ℕ}
  {f : SigValue UInt16 × List SigAttr}

/-- A quantity in an update. -/
theorem toward_cycled (hleast : 0 < least) (hf : v.present ≠ v.target → Approaches least v f.1) :
    Toward v (if v.present ≠ v.target then f else (v, [])).1 := by
  by_cases hne : v.present ≠ v.target
  · rw [if_pos hne]
    exact (hf hne).toward hleast
  · rw [if_neg hne]
    exact ⟨rfl, fun _ => rfl, fun h => absurd h hne⟩

/-- The cycles that are left to it. -/
theorem left_cycled (hleast : 0 < least) (hf : v.present ≠ v.target → Approaches least v f.1) :
    (v.present ≠ v.target ∧
      (dist (if v.present ≠ v.target then f else (v, [])).1 + least - 1) / least + 1 ≤
        (dist v + least - 1) / least) ∨
    v.present = v.target ∧
      (dist (if v.present ≠ v.target then f else (v, [])).1 + least - 1) / least = 0 := by
  by_cases hne : v.present ≠ v.target
  · rw [if_pos hne]
    exact .inl ⟨hne, (hf hne).dist_le hleast⟩
  · rw [if_neg hne]
    rw [not_not] at hne
    refine .inr ⟨hne, Nat.div_eq_of_lt ?_⟩
    change dist v + least - 1 < least
    unfold dist
    rw [hne]
    omega

/-- A quantity that has not arrived takes another update. -/
theorem left_pos (hleast : 0 < least) (hne : v.present ≠ v.target) :
    1 ≤ (dist v + least - 1) / least := by
  have hne' : v.present.toNat ≠ v.target.toNat := fun h => hne (UInt16.toNat_inj.1 h)
  refine (Nat.one_le_div_iff hleast).2 ?_
  unfold dist
  omega

/-- A value between two in range is in range. -/
theorem Toward.inRange {v' : SigValue UInt16} (h : Toward v v') (hp : InRange v.present)
    (ht : InRange v.target) : InRange v'.present ∧ InRange v'.target := by
  obtain ⟨htarget, hstay, hmove⟩ := h
  rw [htarget]
  refine ⟨?_, ht⟩
  by_cases heq : v.present = v.target
  · rw [hstay heq]
    exact hp
  · have hmove := hmove heq
    rw [UInt16.lt_iff_toNat_lt, UInt16.le_iff_toNat_le, UInt16.lt_iff_toNat_lt,
      UInt16.le_iff_toNat_le] at hmove
    unfold InRange at *
    omega

/-- The end of a transition. -/
theorem transitionFinish_spec (elem : SigElem) : (transitionFinish elem).1.settled = true ∧
    (transitionFinish elem).1.transEndTime = elem.transEndTime ∧
    (transitionFinish elem).1.colorTemperature =
      ⟨elem.colorTemperature.target, elem.colorTemperature.target⟩ := by
  simp [transitionFinish, SigElem.settled, settle_fst]

/-- Within the window no update divides by zero. -/
theorem InWindow.divisors (hend : sigModelTransitionInterval ≤ elem.transEndTime)
    (h : InWindow elem now) : 0 ∉ transitionDivisors elem now := by
  rw [zero_mem_divisors_iff, transitionStep_eq_zero_iff]
  rintro ⟨hearly, hzero, -⟩
  have hsub : (elem.transEndTime - sigModelTransitionInterval).toNat = elem.transEndTime.toNat - 20 :=
    UInt32.toNat_sub_of_le _ _ hend
  have hend' : 20 ≤ elem.transEndTime.toNat := UInt32.le_iff_toNat_le.1 hend
  rw [UInt32.le_iff_toNat_le, hsub] at hearly
  have hle : now ≤ elem.transEndTime := UInt32.le_iff_toNat_le.2 (by omega)
  have hleft := UInt32.toNat_sub_of_le _ _ hle
  unfold InWindow at h
  rw [UInt32.le_iff_toNat_le] at h
  rw [hleft] at h hzero
  rw [Nat.mod_eq_of_lt (by omega)] at hzero
  omega

/-- What an update does, by what it returns. -/
structure UpdateSpec (elem elem' : SigElem) (cycle : Bool) : Prop where
  endTime : elem'.transEndTime = elem.transEndTime
  color : ColorInRange elem'
  going : cycle = true → MovesToward elem elem' ∧ 1 ≤ updatesLeft elem' ∧
    updatesLeft elem' + 1 ≤ updatesLeft elem
  done : cycle = false → elem'.settled = true

/-- An update that ends the transition. -/
theorem updateSpec_finish {elem' : SigElem} (hend : elem'.transEndTime = elem.transEndTime)
    (htarget : InRange elem'.colorTemperature.target) :
    UpdateSpec elem (transitionFinish elem').1 false := by
  obtain ⟨hsettled, hsame, hcolor⟩ := transitionFinish_spec elem'
  refine ⟨hsame.trans hend, ?_, nofun, fun _ => hsettled⟩
  unfold ColorInRange
  rw [hcolor]
  exact ⟨htarget, htarget⟩

/-- **One update.** -/
theorem sigModelTransitionUpdate_spec (hc : ColorInRange elem) (now : UInt32) :
    UpdateSpec elem (sigModelTransitionUpdate elem now).2.1 (sigModelTransitionUpdate elem now).1 := by
  have hl : ∀ step, elem.lightness.present ≠ elem.lightness.target →
      Approaches deltaActualMin elem.lightness (lightnessCycle elem.lightness step).1 :=
    fun _ hne => lightnessCycle_approaches hne
  have ht : ∀ step, elem.colorTemperature.present ≠ elem.colorTemperature.target →
      Approaches deltaTempMin elem.colorTemperature
        (colorTemperatureCycle elem.colorTemperature step).1 :=
    fun _ hne => colorTemperatureCycle_approaches hne hc.1 hc.2
  have hla : 0 < deltaActualMin := by decide
  have hlt : 0 < deltaTempMin := by decide
  unfold sigModelTransitionUpdate transitionCycle
  by_cases hearly : now ≤ elem.transEndTime - sigModelTransitionInterval
  · rw [if_pos hearly]
    dsimp only
    generalize ((elem.transEndTime - now) / sigModelTransitionInterval).toNat % 2 ^ 16 = step
    have hl1 := toward_cycled hla (hl step)
    have hl2 := left_cycled hla (hl step)
    have ht1 := toward_cycled hlt (ht step)
    have ht2 := left_cycled hlt (ht step)
    generalize hL : (if elem.lightness.present ≠ elem.lightness.target then
      lightnessCycle elem.lightness step else (elem.lightness, [])) = L at *
    generalize hC : (if elem.colorTemperature.present ≠ elem.colorTemperature.target then
      colorTemperatureCycle elem.colorTemperature step else (elem.colorTemperature, [])) = C at *
    have hrange := ht1.inRange hc.1 hc.2
    have honoff := settle_fst elem.onoff .genOnoff
    split
    case isTrue hcycle =>
      rw [Bool.and_eq_true, decide_eq_true_eq, Bool.not_eq_true'] at hcycle
      obtain ⟨hmoving, hnot⟩ := hcycle
      have hopen : L.1.present ≠ L.1.target ∨ C.1.present ≠ C.1.target := by
        by_contra hall
        push Not at hall
        unfold SigElem.settled at hnot
        simp [honoff, hall] at hnot
      refine ⟨rfl, hrange, fun _ => ⟨⟨honoff, hl1, ht1⟩, ?_, ?_⟩, ?_⟩
      · unfold updatesLeft
        dsimp only
        rcases hopen with hne | hne
        · exact le_max_of_le_left (left_pos hla hne)
        · exact le_max_of_le_right (left_pos hlt hne)
      · unfold updatesLeft
        dsimp only
        generalize (dist L.1 + deltaActualMin - 1) / deltaActualMin = a' at hl2 ⊢
        generalize (dist elem.lightness + deltaActualMin - 1) / deltaActualMin = a at hl2 ⊢
        generalize (dist C.1 + deltaTempMin - 1) / deltaTempMin = b' at ht2 ⊢
        generalize (dist elem.colorTemperature + deltaTempMin - 1) / deltaTempMin = b at ht2 ⊢
        rcases hl2 with ⟨-, hl2⟩ | ⟨hstay, hl2⟩
        · omega
        · rcases ht2 with ⟨-, ht2⟩ | ⟨hstay', -⟩
          · omega
          · exact absurd hmoving (by simp [hstay, hstay'])
      · intro hfalse
        simp [hmoving, hnot] at hfalse
    case isFalse hcycle =>
      rw [Bool.not_eq_true] at hcycle
      rw [hcycle]
      exact updateSpec_finish rfl hrange.2
  · rw [if_neg hearly]
    exact updateSpec_finish rfl hc.2

/-- No more updates than this are needed. -/
theorem updatesLeft_le (hc : ColorInRange elem) : updatesLeft elem ≤ 101 := by
  obtain ⟨⟨hp, hp'⟩, ht, ht'⟩ := hc
  have h1 := elem.lightness.present.toNat_lt
  have h2 := elem.lightness.target.toNat_lt
  unfold updatesLeft dist deltaActualMin deltaTempMin
  unfold colorTemperatureMin at hp ht
  unfold colorTemperatureMax at hp' ht'
  omega

/-- What stays the same along the updates. -/
theorem updates_inv (hc : ColorInRange elem) : ∀ nows : List UInt32,
    (updates elem nows).transEndTime = elem.transEndTime ∧ ColorInRange (updates elem nows) := by
  intro nows
  induction nows using List.reverseRecOn with
  | nil => exact ⟨rfl, hc⟩
  | append_singleton nows now ih =>
    obtain ⟨hend, hrange⟩ := ih
    have hspec := sigModelTransitionUpdate_spec hrange now
    unfold updates
    rw [List.foldl_append]
    exact ⟨hspec.endTime.trans hend, hspec.color⟩

/-- As long as the updates go on, there are updates left. -/
theorem length_le_updatesLeft (hc : ColorInRange elem) (nows : List UInt32)
    (hgo : ∀ pre now, pre ++ [now] <+: nows → (sigModelTransitionUpdate (updates elem pre) now).1 = true) :
    nows.length + updatesLeft (updates elem nows) ≤ updatesLeft elem ∧
      (nows ≠ [] → 1 ≤ updatesLeft (updates elem nows)) := by
  induction nows using List.reverseRecOn with
  | nil => exact ⟨by simp [updates], fun h => absurd rfl h⟩
  | append_singleton nows now ih =>
    obtain ⟨hlen, -⟩ := ih fun pre t hpre => hgo pre t (hpre.trans (List.prefix_append _ _))
    have hspec := sigModelTransitionUpdate_spec (updates_inv hc nows).2 now
    obtain ⟨-, hpos, hless⟩ := hspec.going (hgo nows now (List.prefix_refl _))
    have hlast : updates elem (nows ++ [now]) =
        (sigModelTransitionUpdate (updates elem nows) now).2.1 := by
      unfold updates
      rw [List.foldl_append]
      rfl
    rw [hlast, List.length_append, List.length_singleton]
    exact ⟨by omega, fun _ => hpos⟩

/-- **A transition converges.** Of updates at any uptimes in the window, none divides by zero, one that
returns 1 moves every quantity that differs closer to its target and not past it, one that returns 0
leaves all of them at their targets, and one of the first 101 returns 0. -/
theorem transition_converges (elem : SigElem) (hend : sigModelTransitionInterval ≤ elem.transEndTime)
    (hc : ColorInRange elem) (nows : List UInt32) (hwindow : ∀ now ∈ nows, InWindow elem now) :
    (∀ pre now, pre ++ [now] <+: nows →
      let before := updates elem pre
      let r := sigModelTransitionUpdate before now
      0 ∉ transitionDivisors before now ∧ ColorInRange r.2.1 ∧
        (r.1 = true → MovesToward before r.2.1) ∧ (r.1 = false → r.2.1.settled = true)) ∧
    (101 ≤ nows.length → ∃ pre now, pre ++ [now] <+: nows ∧
      (sigModelTransitionUpdate (updates elem pre) now).1 = false) := by
  constructor
  · intro pre now hpre
    dsimp only
    obtain ⟨hsame, hrange⟩ := updates_inv hc pre
    have hspec := sigModelTransitionUpdate_spec hrange now
    have hmem : now ∈ nows := hpre.subset (by simp)
    refine ⟨InWindow.divisors (hsame ▸ hend) ?_, hspec.color, fun h => (hspec.going h).1, hspec.done⟩
    unfold InWindow
    rw [hsame]
    exact hwindow now hmem
  · intro hlen
    by_contra hnone
    push Not at hnone
    have hgo : ∀ pre now, pre ++ [now] <+: nows →
        (sigModelTransitionUpdate (updates elem pre) now).1 = true := by
      intro pre now hpre
      simpa using hnone pre now hpre
    obtain ⟨hle, hpos⟩ := length_le_updatesLeft hc nows hgo
    have hpos := hpos (List.ne_nil_of_length_pos (by omega))
    have hmax := updatesLeft_le hc
    omega

/-- A light that gets brighter in one second. -/
theorem transition_converges_second :
    sigModelTransitionInterval ≤ (movingLight.setTransition 0x0A 0 5000).transEndTime ∧
    ColorInRange (movingLight.setTransition 0x0A 0 5000) ∧
    (∀ now ∈ [5020, 5040], InWindow (movingLight.setTransition 0x0A 0 5000) now) ∧
    ((∀ pre now, pre ++ [now] <+: [5020, 5040] →
      let before := updates (movingLight.setTransition 0x0A 0 5000) pre
      let r := sigModelTransitionUpdate before now
      0 ∉ transitionDivisors before now ∧ ColorInRange r.2.1 ∧
        (r.1 = true → MovesToward before r.2.1) ∧ (r.1 = false → r.2.1.settled = true)) ∧
    (101 ≤ [(5020 : UInt32), 5040].length → ∃ pre now, pre ++ [now] <+: [5020, 5040] ∧
      (sigModelTransitionUpdate (updates (movingLight.setTransition 0x0A 0 5000) pre) now).1 =
        false)) := by
  have hend : sigModelTransitionInterval ≤ (movingLight.setTransition 0x0A 0 5000).transEndTime := by
    decide
  have hc : ColorInRange (movingLight.setTransition 0x0A 0 5000) :=
    ⟨⟨by decide, by decide⟩, by decide, by decide⟩
  have hwindow : ∀ now ∈ [(5020 : UInt32), 5040],
      InWindow (movingLight.setTransition 0x0A 0 5000) now := by
    intro now hnow
    simp only [List.mem_cons, List.not_mem_nil, or_false] at hnow
    rcases hnow with rfl | rfl
    · exact .inr (by decide)
    · exact .inr (by decide)
  exact ⟨hend, hc, hwindow, transition_converges _ hend hc _ hwindow⟩

end Updates

end GenieSdk.Analysis.Transition
