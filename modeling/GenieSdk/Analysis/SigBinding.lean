import GenieSdk.Model.SigModel

/-!
# Bound light states

On/off and lightness are bound when a Set message arrives: what is written to the target of one
decides the target of the other. The code looks at the present values to tell whether there is
something to bind, so a message that overtakes an unfinished change may leave the other target as
it was. **As long as every accepted message finds its binding made, or the other target already
right, a settled light is on exactly if its lightness is not zero** (`light_states_consistent`).
-/

set_option autoImplicit false

namespace GenieSdk.Analysis

open GenieSdk.Lib GenieSdk.Model

/-! ## What is claimed -/

/-- A light whose three quantities have arrived is on exactly if its lightness is not zero. -/
def LightOk (elem : SigElem) : Prop :=
  elem.settled = true → (elem.onoff.present = 1 ↔ elem.lightness.present ≠ 0)

/-- A settled light whose on/off state and lightness agree. -/
structure Consistent (elem : SigElem) : Prop where
  settled : elem.settled = true
  bound : elem.onoff.present = 1 ↔ elem.lightness.present ≠ 0

/-- The targets agree. -/
def TargetsBound (elem : SigElem) : Prop :=
  elem.onoff.target = 1 ↔ elem.lightness.target ≠ 0

/-- An on/off value that changes the present state takes the lightness along; any other has to
agree with the lightness the light is going to. -/
def OnoffBinds (elem : SigElem) (onoff : UInt8) : Prop :=
  (elem.onoff.present = 0 ∧ onoff = 1) ∨ (elem.onoff.present = 1 ∧ onoff = 0) ∨
    (onoff = 1 ↔ elem.lightness.target ≠ 0)

/-- A lightness that comes from or goes to zero takes the on/off state along; any other has to
agree with the state the light is going to. -/
def LightnessBinds (elem : SigElem) (lightness : UInt16) : Prop :=
  (elem.lightness.present = 0 ∧ lightness ≠ 0) ∨ (elem.lightness.present ≠ 0 ∧ lightness = 0) ∨
    (elem.onoff.target = 1 ↔ lightness ≠ 0)

/-- A new colour temperature switches the light on, but it takes the lightness along only if the
light is off at present. -/
def CtlBinds (elem : SigElem) (colorTemperature : UInt16) : Prop :=
  colorTemperature = elem.colorTemperature.present ∨ elem.onoff.target ≠ 0 ∨
    elem.onoff.present = 0 ∨ elem.lightness.target ≠ 0

/-- **The condition.** Every message that is accepted binds, or need not. -/
def BindOk (s : SigSys) : SigAct → Prop
  | .onoffSet i buf fresh now => ∀ r, genOnoffAnalyze (s.elems i) buf fresh now = .ok r →
      OnoffBinds (s.elems i) (buf.getD 0 0)
  | .lightnessSet i buf fresh now => ∀ r, lightnessAnalyze (s.elems i) buf fresh now = .ok r →
      LightnessBinds (s.elems i) (le16 (buf.getD 0 0) (buf.getD 1 0))
  | .ctlSet i buf fresh now => ∀ r, ctlAnalyze (s.elems i) buf fresh now = .ok r →
      CtlBinds (s.elems i) (le16 (buf.getD 2 0) (buf.getD 3 0))
  | _ => True

/-- Where the targets agree, so do the values of a settled light. -/
theorem TargetsBound.lightOk {elem : SigElem} (h : TargetsBound elem) : LightOk elem := by
  intro hsettled
  obtain ⟨honoff, hlightness, -⟩ : elem.onoff.present = elem.onoff.target ∧
      elem.lightness.present = elem.lightness.target ∧
      elem.colorTemperature.present = elem.colorTemperature.target := by
    simpa [SigElem.settled] using hsettled
  rw [honoff, hlightness]
  exact h

/-- Consistent states have bound targets. -/
theorem Consistent.targetsBound {elem : SigElem} (h : Consistent elem) : TargetsBound elem := by
  obtain ⟨honoff, hlightness, -⟩ : elem.onoff.present = elem.onoff.target ∧
      elem.lightness.present = elem.lightness.target ∧
      elem.colorTemperature.present = elem.colorTemperature.target := by
    simpa [SigElem.settled] using h.settled
  have hbound := h.bound
  rw [honoff, hlightness] at hbound
  exact hbound

/-! ## Messages -/

section Messages

variable (elem : SigElem) (trans delay : UInt8) (now : UInt32)

@[simp] theorem setTransition_onoff : (elem.setTransition trans delay now).onoff = elem.onoff := by
  unfold SigElem.setTransition
  dsimp only
  split <;> rfl

@[simp] theorem setTransition_lightness :
    (elem.setTransition trans delay now).lightness = elem.lightness := by
  unfold SigElem.setTransition
  dsimp only
  split <;> rfl

@[simp] theorem setTransition_colorTemperature :
    (elem.setTransition trans delay now).colorTemperature = elem.colorTemperature := by
  unfold SigElem.setTransition
  dsimp only
  split <;> rfl

@[simp] theorem updateByOnoff_onoff : (sigModelLightnessUpdateByOnoff elem).onoff = elem.onoff := by
  unfold sigModelLightnessUpdateByOnoff
  split_ifs <;> rfl

@[simp] theorem ctlUpdateByOnoff_onoff :
    (sigModelLightCtlUpdateByOnoff elem).1.onoff = elem.onoff := by
  unfold sigModelLightCtlUpdateByOnoff
  split_ifs <;> rfl

@[simp] theorem ctlUpdateByOnoff_lightness :
    (sigModelLightCtlUpdateByOnoff elem).1.lightness = elem.lightness := by
  unfold sigModelLightCtlUpdateByOnoff
  split_ifs <;> rfl

@[simp] theorem genericOnoffBindOps_onoff :
    (sigModelGenericOnoffBindOps elem).1.onoff = elem.onoff := by
  simp [sigModelGenericOnoffBindOps]

@[simp] theorem genericOnoffBindOps_lightness :
    (sigModelGenericOnoffBindOps elem).1.lightness =
      (sigModelLightnessUpdateByOnoff elem).lightness := by
  simp [sigModelGenericOnoffBindOps]

/-- The lightness an on/off change goes to. -/
theorem updateByOnoff_bound :
    TargetsBound (sigModelLightnessUpdateByOnoff elem) ↔ OnoffBinds elem elem.onoff.target := by
  unfold sigModelLightnessUpdateByOnoff TargetsBound OnoffBinds
  split_ifs with hon hlast hoff
  · simp [hon, hlast]
  · simp [hon, lightnessDefault]
  · simp [hoff]
  · simp [hon, hoff]

/-- **An accepted OnOff Set leaves the targets bound exactly if it binds.** -/
theorem genOnoffAccept_bound (onoff : UInt8) :
    TargetsBound (genOnoffAccept elem onoff trans delay now).1 ↔ OnoffBinds elem onoff := by
  have hbound := updateByOnoff_bound
    (({ elem with onoff := { elem.onoff with target := onoff } } : SigElem).setTransition
      trans delay now)
  simpa [TargetsBound, OnoffBinds, genOnoffAccept] using hbound

/-- The on/off state a lightness goes to. -/
theorem updateByLightness_bound :
    TargetsBound (sigModelOnoffUpdateByLightness elem) ↔
      LightnessBinds elem elem.lightness.target := by
  unfold sigModelOnoffUpdateByLightness TargetsBound LightnessBinds
  split_ifs with hon hoff
  · simp [hon]
  · simp [hoff]
  · simp only [hon, hoff, false_or]

/-- **An accepted Lightness Set leaves the targets bound exactly if it binds.** -/
theorem lightnessAccept_bound (lightness : UInt16) :
    TargetsBound (lightnessAccept elem lightness trans delay now).1 ↔
      LightnessBinds elem lightness := by
  -- the last lightness and the transition are not looked at
  have hkey : ∀ e : SigElem, e.onoff = elem.onoff →
      e.lightness = { elem.lightness with target := lightness } →
      (TargetsBound (if e.lightness.present ≠ e.lightness.target then
        (sigModelOnoffUpdateByLightness e, [SigAttr.genLightness]) else (e, [])).1 ↔
      LightnessBinds elem lightness) := by
    intro e honoff hlightness
    have hbinds : LightnessBinds e e.lightness.target ↔ LightnessBinds elem lightness := by
      simp [LightnessBinds, honoff, hlightness]
    split
    case isTrue => exact (updateByLightness_bound e).trans hbinds
    case isFalse hsame =>
      rw [not_not, hlightness] at hsame
      dsimp only at hsame
      unfold TargetsBound LightnessBinds
      rw [honoff, hlightness, hsame]
      by_cases hzero : lightness = 0 <;> simp [hzero]
  unfold lightnessAccept
  refine hkey _ ?_ ?_
  · rw [setTransition_onoff]
    split <;> rfl
  · rw [setTransition_lightness]
    split <;> rfl

/-- A new colour temperature switches the light on. -/
theorem updateByColorTemperature_bound (h : TargetsBound elem) :
    TargetsBound (sigModelOnoffUpdateByColorTemperature elem).1 ↔
      elem.onoff.target ≠ 0 ∨ elem.onoff.present = 0 ∨ elem.lightness.target ≠ 0 := by
  unfold sigModelOnoffUpdateByColorTemperature
  split
  case isTrue hoff =>
    have hbound := updateByOnoff_bound { elem with onoff := { elem.onoff with target := 1 } }
    simp only [TargetsBound, genericOnoffBindOps_onoff, genericOnoffBindOps_lightness,
      updateByOnoff_onoff] at hbound ⊢
    rw [hbound]
    simp [OnoffBinds, hoff]
  case isFalse hon => exact iff_of_true h (Or.inl hon)

/-- **An accepted CTL Set keeps the targets bound exactly if it binds.** -/
theorem ctlAccept_bound (h : TargetsBound elem) (colorTemperature : UInt16) :
    TargetsBound (ctlAccept elem colorTemperature trans delay now).1 ↔
      CtlBinds elem colorTemperature := by
  unfold ctlAccept CtlBinds
  dsimp only
  rw [setTransition_colorTemperature]
  by_cases hsame : colorTemperature = elem.colorTemperature.present
  · rw [if_neg (by simp [hsame])]
    refine iff_of_true ?_ (Or.inl hsame)
    simpa [TargetsBound] using h
  · rw [if_pos (Ne.symm hsame), updateByColorTemperature_bound]
    · simp [hsame]
    · simpa [TargetsBound] using h

end Messages

/-! ## Events -/

section Events

@[simp] theorem settle_target {α : Type} [DecidableEq α] (v : SigValue α) (attr : SigAttr) :
    (settle v attr).1.target = v.target := by
  unfold settle
  split <;> rfl

@[simp] theorem lightnessCycle_target (v : SigValue UInt16) (step : ℕ) :
    (lightnessCycle v step).1.target = v.target := by
  unfold lightnessCycle
  dsimp only
  split_ifs <;> rfl

variable {elem : SigElem}

/-- What a transition does before its end leaves the targets alone. -/
theorem TargetsBound.transitionCycle (h : TargetsBound elem) (now : UInt32) :
    TargetsBound (transitionCycle elem now).1 := by
  unfold Model.transitionCycle
  split
  case isTrue =>
    dsimp only
    have hlightness : (if elem.lightness.present ≠ elem.lightness.target then
        lightnessCycle elem.lightness (((elem.transEndTime - now) /
          sigModelTransitionInterval).toNat % 2 ^ 16)
        else (elem.lightness, [])).1.target = elem.lightness.target := by
      split
      · exact lightnessCycle_target _ _
      · rfl
    unfold TargetsBound
    dsimp only
    rw [settle_target, hlightness]
    exact h
  case isFalse => exact h

/-- The end of a transition binds the targets where the light goes out. -/
theorem TargetsBound.transitionFinish (h : TargetsBound elem) :
    TargetsBound (transitionFinish elem).1 := by
  unfold TargetsBound Model.transitionFinish
  simp only [settle_target]
  split
  case isTrue hzero => simp [hzero]
  case isFalse => exact h

/-- The targets stay bound over an update of the transition. -/
theorem TargetsBound.transitionUpdate (h : TargetsBound elem) (now : UInt32) :
    TargetsBound (sigModelTransitionUpdate elem now).2.1 := by
  unfold sigModelTransitionUpdate
  dsimp only
  split
  · exact h.transitionCycle now
  · exact (h.transitionCycle now).transitionFinish

/-- **Every event handler keeps the targets bound.** -/
theorem TargetsBound.handle (h : TargetsBound elem) (now : UInt32) (ready : Bool)
    (todo : SigTodo) : TargetsBound (sigModelHandle elem now ready todo).elem := by
  cases todo with
  | cycleRest =>
    change TargetsBound (meshTransTimerCycleRest elem).elem
    unfold meshTransTimerCycleRest
    split <;> exact h
  | event e =>
    cases e with
    | analyzeMsg => exact h
    | indicate => exact h
    | delayStart => exact h
    | transEnd => exact h
    | actionDone =>
      change TargetsBound (sigModelHandleActionDone elem ready).elem
      unfold sigModelHandleActionDone TargetsBound
      simp only [settle_target]
      exact h
    | delayEnd =>
      change TargetsBound (sigModelEventHandleDelayEnd elem now).elem
      unfold sigModelEventHandleDelayEnd
      dsimp only
      split <;> exact h
    | transStart =>
      change TargetsBound (sigModelEventHandleTransStart elem now).elem
      unfold sigModelEventHandleTransStart
      dsimp only
      split <;> exact h
    | transCycle =>
      change TargetsBound (sigModelEventHandleTransCycle elem now).elem
      unfold sigModelEventHandleTransCycle
      dsimp only
      split <;> exact h.transitionUpdate now

end Events

/-! ## Runs -/

section Runs

variable {elem : SigElem} {buf : List UInt8} {fresh : Bool} {now : UInt32}
  {r : SigElem × List SigAttr}

/-- What the analysis of an accepted OnOff Set comes to. -/
theorem genOnoffAnalyze_ok (h : genOnoffAnalyze elem buf fresh now = .ok r) :
    ∃ trans delay, r = genOnoffAccept elem (buf.getD 0 0) trans delay now := by
  unfold genOnoffAnalyze at h
  dsimp only at h
  split at h
  case h_3 => cases h
  all_goals
    split at h
    · cases h
    · split at h
      · cases h
      · cases h
        exact ⟨_, _, rfl⟩

/-- A lightness message that is taken sets the lightness that it has. -/
theorem lightnessAnalyze_ok (h : lightnessAnalyze elem buf fresh now = .ok r) :
    ∃ trans delay,
      r = lightnessAccept elem (le16 (buf.getD 0 0) (buf.getD 1 0)) trans delay now := by
  unfold lightnessAnalyze at h
  dsimp only at h
  split at h
  case h_3 => cases h
  all_goals
    split at h
    · cases h
    · cases h
      exact ⟨_, _, rfl⟩

/-- So does a CTL message. -/
theorem ctlAnalyze_ok (h : ctlAnalyze elem buf fresh now = .ok r) :
    ∃ trans delay, r = ctlAccept elem (le16 (buf.getD 2 0) (buf.getD 3 0)) trans delay now := by
  unfold ctlAnalyze at h
  dsimp only at h
  split at h
  case h_3 => cases h
  all_goals
    split at h
    · cases h
    · cases h
      exact ⟨_, _, rfl⟩

/-- A scene message leaves OnOff and lightness. -/
theorem sceneAnalyze_ok (h : sceneAnalyze elem buf fresh = .ok r) :
    r.1.onoff = elem.onoff ∧ r.1.lightness = elem.lightness := by
  unfold sceneAnalyze at h
  dsimp only at h
  split at h
  case h_3 => cases h
  all_goals
    split_ifs at h <;> cases h <;> exact ⟨rfl, rfl⟩

@[simp] theorem setIndicates_elems (s : SigSys) (i : ℕ) (attrs : List SigAttr) :
    (s.setIndicates i attrs).elems = s.elems := by
  induction attrs generalizing s with
  | nil => rfl
  | cons attr attrs ih => exact ih (s.setIndicate i attr)

/-- The targets of all elements agree. -/
def AllBound (s : SigSys) : Prop := ∀ i, TargetsBound (s.elems i)

variable {s : SigSys} {i : ℕ}

/-- One element changes. -/
theorem AllBound.setElem (h : AllBound s) (helem : TargetsBound elem) :
    AllBound (s.setElem i elem) := by
  intro j
  change TargetsBound (Function.update s.elems i elem j)
  by_cases hj : j = i
  · rw [hj, Function.update_self]
    exact helem
  · rw [Function.update_of_ne hj]
    exact h j

/-- A message changes its element if it is accepted. -/
theorem AllBound.set (h : AllBound s) {res : Except MeshError (SigElem × List SigAttr)}
    (hres : ∀ r, res = .ok r → TargetsBound r.1) : AllBound (sigModelSet s i res) := by
  cases res with
  | error e => exact h
  | ok r =>
    intro j
    change TargetsBound (((s.setElem i r.1).setIndicates i r.2).elems j)
    rw [setIndicates_elems]
    exact h.setElem (hres r rfl) j

/-- What is to be done keeps the targets of its element bound. -/
theorem AllBound.sigModelDo (h : AllBound s) (k : ℕ) (todo : SigTodo) (ready : Bool) :
    AllBound (sigModelDo s k i todo now ready) := by
  have helem : AllBound ((s.setElem i (sigModelHandle (s.elems i) now ready todo).elem).setIndicates i
      (sigModelHandle (s.elems i) now ready todo).flags) := by
    intro j
    rw [setIndicates_elems]
    exact h.setElem ((h i).handle now ready todo) j
  unfold Model.sigModelDo
  split
  · exact h
  · dsimp only
    split <;> exact helem

/-- **Every step that meets the condition keeps the targets bound.** -/
theorem AllBound.step {s' : SigSys} {a : SigAct} (h : AllBound s) (hok : BindOk s a)
    (hstep : sigStep s a = some s') : AllBound s' := by
  cases a with
  | onoffSet i buf fresh now =>
    cases hstep
    refine h.set fun r hr => ?_
    obtain ⟨trans, delay, rfl⟩ := genOnoffAnalyze_ok hr
    exact (genOnoffAccept_bound _ trans delay now _).2 (hok _ hr)
  | lightnessSet i buf fresh now =>
    cases hstep
    refine h.set fun r hr => ?_
    obtain ⟨trans, delay, rfl⟩ := lightnessAnalyze_ok hr
    exact (lightnessAccept_bound _ trans delay now _).2 (hok _ hr)
  | ctlSet i buf fresh now =>
    cases hstep
    refine h.set fun r hr => ?_
    obtain ⟨trans, delay, rfl⟩ := ctlAnalyze_ok hr
    exact (ctlAccept_bound _ trans delay now (h i) _).2 (hok _ hr)
  | sceneSet i buf fresh =>
    cases hstep
    refine h.set fun r hr => ?_
    obtain ⟨honoff, hlightness⟩ := sceneAnalyze_ok hr
    unfold TargetsBound
    rw [honoff, hlightness]
    exact h i
  | delayTimer i =>
    simp only [sigStep] at hstep
    split at hstep
    case isTrue =>
      cases hstep
      exact h.setElem (h i : TargetsBound (s.elems i).transitionTimerStop)
    case isFalse => cases hstep
  | transTimer i =>
    simp only [sigStep] at hstep
    split at hstep
    case isTrue =>
      cases hstep
      exact h.setElem (h i : TargetsBound (s.elems i).transitionTimerStop)
    case isFalse => cases hstep
  | handle k now ready =>
    simp only [sigStep] at hstep
    split at hstep
    case h_1 => cases hstep
    case h_2 i todo hk =>
      cases hstep
      exact h.sigModelDo k todo ready

end Runs

/-- **Bound light states stay consistent**, in every run all of whose messages meet `BindOk`. -/
theorem light_states_consistent (elems : ℕ → SigElem) (as : List SigAct) (s : SigSys)
    (hinit : ∀ i, Consistent (elems i)) (hmeet : StepsMeet sigStep BindOk (sigInit elems) as)
    (hrun : runSteps sigStep (sigInit elems) as = some s) : ∀ i, LightOk (s.elems i) := by
  have hbound : AllBound (sigInit elems) := fun i => (hinit i).targetsBound
  have h : AllBound s := runSteps_inv (fun _ _ _ ht hok hstep => ht.step hok hstep) hbound hmeet hrun
  exact fun i => (h i).lightOk

/-- A lamp that is on at a quarter of its lightness. -/
def lampOn : SigElem :=
  { onoff := ⟨1, 1⟩, lightness := ⟨0x4000, 0x4000⟩, colorTemperature := ⟨800, 800⟩, scene := ⟨0, 0⟩
    delay := 0, delayTimer := false, trans := 0, transStartTime := 0, transEndTime := 0
    transTimer := false, lastLightness := 0x4000, lastColorTemperature := 800 }

/-- The lamp is switched off with a transition, and on again when that is over. -/
def offAndOn : List SigAct :=
  [.onoffSet 0 [0, 7, 1, 0] true 1000, .handle 0 1000 true, .handle 0 1000 true, .transTimer 0,
    .handle 0 1090 true, .handle 0 1090 true, .handle 0 1090 true, .handle 0 1090 true,
    .handle 0 1090 true, .onoffSet 0 [1, 8] true 2000, .handle 0 2000 true, .handle 0 2000 true,
    .handle 0 2000 true]

/-- A lamp that is switched off and on again has its lightness back. -/
theorem light_states_consistent_off_and_on :
    ∃ s, runSteps sigStep (sigInit fun _ => lampOn) offAndOn = some s ∧
      (s.elems 0).settled = true ∧ (s.elems 0).lightness.present = 0x4000 ∧
      ∀ i, LightOk (s.elems i) := by
  refine ⟨_, rfl, by decide +kernel, by decide +kernel, ?_⟩
  refine light_states_consistent (fun _ => lampOn) offAndOn _ (fun _ => ?_) ?_ rfl
  · exact ⟨by decide, by decide⟩
  · refine ⟨fun _ _ => Or.inr (Or.inl ⟨rfl, rfl⟩), fun _ hoff => ?_⟩
    cases hoff
    -- the transition to off
    iterate 8
      refine ⟨trivial, fun _ hhandle => ?_⟩
      cases hhandle
    refine ⟨fun _ _ => Or.inl ⟨rfl, rfl⟩, fun _ hon => ?_⟩
    cases hon
    iterate 3
      refine ⟨trivial, fun _ hhandle => ?_⟩
      cases hhandle
    trivial

/-- The lamp is to be switched off later, and is switched on before. -/
def offOvertaken : List SigAct :=
  [.onoffSet 0 [0, 7, 0, 10] true 1000, .handle 0 1000 true, .handle 0 1000 true,
    .onoffSet 0 [1, 8] true 1010, .handle 0 1010 true, .handle 0 1010 true]

/-- A lamp can be on without lightness, where the condition is not met. -/
theorem light_on_without_lightness :
    ¬ ∀ elems as s, (∀ i, Consistent (elems i)) →
      runSteps sigStep (sigInit elems) as = some s → ∀ i, LightOk (s.elems i) := by
  intro hall
  have hok := hall (fun _ => lampOn) offOvertaken _ (fun _ => ⟨by decide, by decide⟩) rfl 0
  have hsettled := hok (by decide +kernel)
  revert hsettled
  decide +kernel

end GenieSdk.Analysis
