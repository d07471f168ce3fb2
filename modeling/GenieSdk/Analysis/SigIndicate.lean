import GenieSdk.Model.SigModel

/-!
# Indications and their elements

All elements share the word `indicate_flags`, and `sig_model_handle_indicate` reports, for the
element it is called for, whatever is set in it. **The indications belong to their elements exactly
as long as no indicate event is handled for an element while an attribute flagged for another
element has not been reported** (`indications_belong`).
-/

set_option autoImplicit false

namespace GenieSdk.Analysis

open GenieSdk.Lib GenieSdk.Model

/-- **The condition.** When an indicate event is handled, nothing waits for other elements. -/
def IndicateOk (s : SigSys) : SigAct → Prop
  | .handle k _ _ => ∀ i, s.todo[k]? = some (i, .event .indicate) →
      ∀ o, o ≠ i → ∀ a, outstanding o a s.log = false
  | _ => True

/-- A flag is set in the word as long as the attribute waits for a report. -/
def FlagsWaiting (s : SigSys) : Prop := ∀ a, s.indicateFlags a = waiting a s.log

section Steps

variable {s : SigSys} {i : ℕ}

/-- The flags belong to waiting attributes when one more is flagged. -/
theorem FlagsWaiting.setIndicate (h : FlagsWaiting s) (attr : SigAttr) :
    FlagsWaiting (s.setIndicate i attr) := by
  intro a
  change Function.update s.indicateFlags attr true a = waiting a (s.log ++ [.flagged i attr])
  rw [waiting_flagged]
  by_cases ha : a = attr
  · rw [ha, Function.update_self, if_pos rfl]
  · rw [Function.update_of_ne ha, if_neg (Ne.symm ha)]
    exact h a

/-- Setting flags reports nothing. -/
theorem setIndicates_belong (attrs : List SigAttr) (hlog : FlagsBelong s.log) :
    FlagsBelong (s.setIndicates i attrs).log := by
  induction attrs generalizing s with
  | nil => exact hlog
  | cons attr attrs ih => exact ih (hlog.flagged i attr)

/-- Flags that are set keep the word and the log in step. -/
theorem FlagsWaiting.setIndicates (h : FlagsWaiting s) (attrs : List SigAttr) :
    FlagsWaiting (s.setIndicates i attrs) := by
  induction attrs generalizing s with
  | nil => exact h
  | cons attr attrs ih => exact ih (h.setIndicate attr)

/-- A message flags attributes, if it is accepted. -/
theorem sigModelSet_step (h : FlagsWaiting s) (r : Except MeshError (SigElem × List SigAttr)) :
    FlagsWaiting (sigModelSet s i r) ∧
      (FlagsBelong s.log → FlagsBelong (sigModelSet s i r).log) := by
  cases r with
  | error e => exact ⟨h, id⟩
  | ok r =>
    have hflags : FlagsWaiting (s.setElem i r.1) := h
    exact ⟨hflags.setIndicates r.2, setIndicates_belong (s := s.setElem i r.1) r.2⟩

/-- Every handler but the one that reports only flags attributes. -/
theorem sigModelDo_step (h : FlagsWaiting s) {todo : SigTodo} (htodo : todo ≠ .event .indicate)
    (k : ℕ) (now : UInt32) (ready : Bool) :
    FlagsWaiting (sigModelDo s k i todo now ready) ∧
      (FlagsBelong s.log → FlagsBelong (sigModelDo s k i todo now ready).log) := by
  have hflags : FlagsWaiting (s.setElem i (sigModelHandle (s.elems i) now ready todo).elem) := h
  have hset := hflags.setIndicates (i := i) (sigModelHandle (s.elems i) now ready todo).flags
  have hlog := setIndicates_belong (i := i)
    (s := s.setElem i (sigModelHandle (s.elems i) now ready todo).elem)
    (sigModelHandle (s.elems i) now ready todo).flags
  unfold sigModelDo
  split
  case h_1 => exact absurd rfl htodo
  case h_2 =>
    dsimp only
    split <;> exact ⟨hset, hlog⟩

/-- **What an indicate event reports belongs to its element exactly if nothing waits for
others.** -/
theorem sigModelHandleIndicate_step (h : FlagsWaiting s) (hlog : FlagsBelong s.log) :
    FlagsBelong (sigModelHandleIndicate s i).log ↔
      ∀ o, o ≠ i → ∀ a, outstanding o a s.log = false := by
  refine hlog.report_iff fun a => ?_
  rw [List.mem_filter, h a]
  have hmem : a ∈ sigAttrs := by cases a <;> decide
  exact and_iff_right hmem

/-- A report clears the word and leaves nothing waiting. -/
theorem FlagsWaiting.indicate (h : FlagsWaiting s) :
    FlagsWaiting (sigModelHandleIndicate s i) := by
  intro a
  have hmem : a ∈ sigAttrs := by cases a <;> decide
  change false = waiting a (s.log ++ [.reported i (sigAttrs.filter s.indicateFlags)])
  rw [waiting_reported, ← h a]
  simp [hmem]

/-- Every step keeps the word in step with the log. -/
theorem FlagsWaiting.step {s' : SigSys} {a : SigAct} (h : FlagsWaiting s)
    (hstep : sigStep s a = some s') : FlagsWaiting s' := by
  cases a with
  | onoffSet i buf fresh now =>
    cases hstep
    exact (sigModelSet_step h _).1
  | lightnessSet i buf fresh now =>
    cases hstep
    exact (sigModelSet_step h _).1
  | ctlSet i buf fresh now =>
    cases hstep
    exact (sigModelSet_step h _).1
  | sceneSet i buf fresh =>
    cases hstep
    exact (sigModelSet_step h _).1
  | delayTimer i =>
    simp only [sigStep] at hstep
    split at hstep
    case isTrue =>
      cases hstep
      exact h
    case isFalse => cases hstep
  | transTimer i =>
    simp only [sigStep] at hstep
    split at hstep
    case isTrue =>
      cases hstep
      exact h
    case isFalse => cases hstep
  | handle k now ready =>
    simp only [sigStep] at hstep
    split at hstep
    case h_1 => cases hstep
    case h_2 i todo hk =>
      cases hstep
      by_cases htodo : todo = .event .indicate
      · rw [htodo]
        exact FlagsWaiting.indicate (s := { s with todo := s.todo.eraseIdx k }) h
      · exact (sigModelDo_step h htodo k now ready).1

/-- **A step meets the condition exactly if the indications belong to their elements after it.** -/
theorem indicateOk_iff (h : FlagsWaiting s) (hlog : FlagsBelong s.log) (a : SigAct) :
    IndicateOk s a ↔ ∀ s', sigStep s a = some s' → FlagsBelong s'.log := by
  have hset : ∀ i r, FlagsBelong (sigModelSet s i r).log := fun i r =>
    (sigModelSet_step (i := i) h r).2 hlog
  cases a with
  | onoffSet i buf fresh now =>
    refine ⟨fun _ s' hstep => ?_, fun _ => trivial⟩
    cases hstep
    exact hset i _
  | lightnessSet i buf fresh now =>
    refine ⟨fun _ s' hstep => ?_, fun _ => trivial⟩
    cases hstep
    exact hset i _
  | ctlSet i buf fresh now =>
    refine ⟨fun _ s' hstep => ?_, fun _ => trivial⟩
    cases hstep
    exact hset i _
  | sceneSet i buf fresh =>
    refine ⟨fun _ s' hstep => ?_, fun _ => trivial⟩
    cases hstep
    exact hset i _
  | delayTimer i =>
    refine ⟨fun _ s' hstep => ?_, fun _ => trivial⟩
    simp only [sigStep] at hstep
    split at hstep
    case isTrue =>
      cases hstep
      exact hlog
    case isFalse => cases hstep
  | transTimer i =>
    refine ⟨fun _ s' hstep => ?_, fun _ => trivial⟩
    simp only [sigStep] at hstep
    split at hstep
    case isTrue =>
      cases hstep
      exact hlog
    case isFalse => cases hstep
  | handle k now ready =>
    cases hk : s.todo[k]? with
    | none => simp [IndicateOk, sigStep, hk]
    | some p =>
      obtain ⟨i, todo⟩ := p
      have hone : (∀ s', sigStep s (.handle k now ready) = some s' → FlagsBelong s'.log) ↔
          FlagsBelong (sigModelDo s k i todo now ready).log := by
        simp [sigStep, hk]
      rw [hone]
      by_cases htodo : todo = .event .indicate
      · rw [htodo] at hk ⊢
        have hrep := sigModelHandleIndicate_step (i := i)
          (s := { s with todo := s.todo.eraseIdx k }) h hlog
        refine Iff.trans ⟨fun hok => hok i hk, fun hnone j hj => ?_⟩ hrep.symm
        cases hk.symm.trans hj
        exact hnone
      · refine ⟨fun _ => (sigModelDo_step h htodo k now ready).2 hlog, fun _ j hj => ?_⟩
        cases hk.symm.trans hj
        exact absurd rfl htodo

end Steps

/-- **The indications belong to their elements, exactly as long as every step meets
`IndicateOk`.** -/
theorem indications_belong (elems : ℕ → SigElem) (as : List SigAct) :
    (∀ pre t, pre <+: as → runSteps sigStep (sigInit elems) pre = some t → FlagsBelong t.log) ↔
      StepsMeet sigStep IndicateOk (sigInit elems) as :=
  stepsMeet_iff (I := FlagsWaiting) (J := fun t => FlagsBelong t.log)
    (fun _ _ _ h hstep => h.step hstep) (fun _ a h hlog => indicateOk_iff h hlog a)
    (fun _ => rfl) flagsBelong_nil

/-- A lamp that is on at a quarter of its lightness, element 0 being off. -/
def twoLamps (i : ℕ) : SigElem :=
  let on : Bool := i ≠ 0
  let onoff : UInt8 := if on then 1 else 0
  let lightness : UInt16 := if on then 0x4000 else 0
  { onoff := ⟨onoff, onoff⟩, lightness := ⟨lightness, lightness⟩, colorTemperature := ⟨800, 800⟩
    scene := ⟨0, 0⟩, delay := 0, delayTimer := false, trans := 0, transStartTime := 0
    transEndTime := 0, transTimer := false, lastLightness := 0x4000, lastColorTemperature := 800 }

/-- Element 0 is to be switched on later; element 1 gets brighter now. -/
def delayedAndDirect : List SigAct :=
  [.onoffSet 0 [1, 7, 0, 10] true 0, .handle 0 0 true, .handle 0 0 true,
    .lightnessSet 1 [0, 0x80, 8] true 0, .handle 0 0 true, .handle 0 0 true, .handle 0 0 true]

/-- An indication is reported for an attribute that another message flagged. -/
theorem indications_mixed :
    ¬ ∀ elems as t, runSteps sigStep (sigInit elems) as = some t → FlagsBelong t.log := by
  intro hall
  have hrep := hall twoLamps delayedAndDirect _ rfl
    [.flagged 0 .genOnoff, .flagged 1 .genLightness, .flagged 1 .genLightness] 1
    [.genOnoff, .genLightness] [] (by decide +kernel)
  have hout := hrep.own .genOnoff (by decide)
  revert hout
  decide

end GenieSdk.Analysis
