import Mathlib.Tactic

/-!
# Runs of a step function

A system is a partial step function on states; `runSteps` follows a list of actions and fails
as soon as one of them is not enabled. `runSteps_inv` is the invariant rule: what every step
preserves holds after every run. Some systems keep their invariant only along steps that meet
a condition on the state they start in; `StepsMeet` says that all steps of a run do.
`runSteps_sum` is the rule for accounts: what a run changes is the sum of what its steps change.
`withHistory` adds to a system a history that no step reads.

`runCalls` is the total variant that collects what the calls return.
-/

set_option autoImplicit false

namespace GenieSdk.Lib

variable {σ τ α ω : Type}

/-- Follow the actions `as` from `s`. -/
def runSteps (step : σ → α → Option σ) : σ → List α → Option σ
  | s, [] => some s
  | s, a :: as =>
    match step s a with
    | none => none
    | some s' => runSteps step s' as

/-- Every step of the run of `as` from `s` meets `P` in the state it starts in. -/
def StepsMeet (step : σ → α → Option σ) (P : σ → α → Prop) : σ → List α → Prop
  | _, [] => True
  | s, a :: as => P s a ∧ ∀ s', step s a = some s' → StepsMeet step P s' as

/-- A run takes its first step and then the rest. -/
theorem runSteps_cons {step : σ → α → Option σ} {s s' : σ} {a : α} {as : List α}
    (h : runSteps step s (a :: as) = some s') :
    ∃ s₁, step s a = some s₁ ∧ runSteps step s₁ as = some s' := by
  unfold runSteps at h
  cases hs : step s a with
  | none => simp [hs] at h
  | some s₁ => exact ⟨s₁, rfl, by simpa [hs] using h⟩

/-- Two runs, one behind the other. -/
theorem runSteps_append {step : σ → α → Option σ} {s : σ} {as bs : List α} :
    runSteps step s (as ++ bs) = (runSteps step s as).bind fun s' => runSteps step s' bs := by
  induction as generalizing s with
  | nil => rfl
  | cons a as ih =>
    rw [List.cons_append, runSteps, runSteps]
    cases step s a with
    | none => rfl
    | some s₁ => exact ih

/-- **The invariant rule.** What every step that meets `P` preserves holds after every run all
of whose steps meet `P`. -/
theorem runSteps_inv {step : σ → α → Option σ} {P : σ → α → Prop} {I : σ → Prop}
    (hstep : ∀ s a s', I s → P s a → step s a = some s' → I s') {s s' : σ} {as : List α}
    (hs : I s) (hmeet : StepsMeet step P s as) (hrun : runSteps step s as = some s') : I s' := by
  induction as generalizing s with
  | nil =>
    cases hrun
    exact hs
  | cons a as ih =>
    obtain ⟨s₁, h₁, hrest⟩ := runSteps_cons hrun
    exact ih (hstep s a s₁ hs hmeet.1 h₁) (hmeet.2 s₁ h₁) hrest

/-- **The rule for systems that never get stuck.** If every step that meets `P` from a state with
`I` returns and keeps `I`, so does every run all of whose steps meet `P`. -/
theorem runSteps_total {step : σ → α → Option σ} {P : σ → α → Prop} {I : σ → Prop}
    (hstep : ∀ s a, I s → P s a → ∃ s', step s a = some s' ∧ I s') {s : σ} {as : List α}
    (hs : I s) (hmeet : StepsMeet step P s as) : ∃ s', runSteps step s as = some s' ∧ I s' := by
  induction as generalizing s with
  | nil => exact ⟨s, rfl, hs⟩
  | cons a as ih =>
    obtain ⟨s₁, h₁, hI⟩ := hstep s a hs hmeet.1
    obtain ⟨s', hrun, hI'⟩ := ih hI (hmeet.2 s₁ h₁)
    refine ⟨s', ?_, hI'⟩
    rw [runSteps, h₁]
    exact hrun

/-- What the steps of a run add up to, when `d` says what each of them adds. -/
def sumSteps (step : σ → α → Option σ) (d : σ → α → ℤ) : σ → List α → ℤ
  | _, [] => 0
  | s, a :: as =>
    d s a +
      match step s a with
      | none => 0
      | some s' => sumSteps step d s' as

/-- **The rule for accounts.** If every step that meets `P` changes `M` by what `d` says, a run changes
it by their sum. -/
theorem runSteps_sum {step : σ → α → Option σ} {P : σ → α → Prop} {I : σ → Prop} {M : σ → ℤ}
    {d : σ → α → ℤ}
    (hstep : ∀ s a s', I s → P s a → step s a = some s' → I s' ∧ M s' = M s + d s a) {s s' : σ}
    {as : List α} (hs : I s) (hmeet : StepsMeet step P s as)
    (hrun : runSteps step s as = some s') : M s' = M s + sumSteps step d s as := by
  induction as generalizing s with
  | nil =>
    cases hrun
    simp [sumSteps]
  | cons a as ih =>
    obtain ⟨s₁, h₁, hrest⟩ := runSteps_cons hrun
    obtain ⟨hI, hM⟩ := hstep s a s₁ hs hmeet.1 h₁
    rw [ih hI (hmeet.2 s₁ h₁) hrest, hM, sumSteps, h₁, add_assoc]

/-- A condition that every action of the list meets in every state is met by the run. -/
theorem stepsMeet_of_forall {step : σ → α → Option σ} {P : σ → α → Prop} {as : List α}
    (h : ∀ a ∈ as, ∀ s, P s a) (s : σ) : StepsMeet step P s as := by
  induction as generalizing s with
  | nil => trivial
  | cons a as ih =>
    exact ⟨h a (by simp) s, fun s' _ => ih (fun b hb => h b (List.mem_cons_of_mem _ hb)) s'⟩

/-- A condition on the actions alone, next to one on the steps. -/
theorem StepsMeet.and_forall {step : σ → α → Option σ} {P : σ → α → Prop} {Q : α → Prop} {s : σ}
    {as : List α} (hmeet : StepsMeet step P s as) (hall : ∀ a ∈ as, Q a) :
    StepsMeet step (fun s a => Q a ∧ P s a) s as := by
  induction as generalizing s with
  | nil => trivial
  | cons a as ih =>
    refine ⟨⟨hall a List.mem_cons_self, hmeet.1⟩, fun s' hs' => ?_⟩
    exact ih (hmeet.2 s' hs') fun b hb => hall b (List.mem_cons_of_mem a hb)

/-- **The rule for equivalent conditions.** Two conditions that agree on the steps that meet `R`, from
states with `I`, agree on the runs all of whose steps meet `R`. -/
theorem stepsMeet_congr {step : σ → α → Option σ} {P Q R : σ → α → Prop} {I : σ → Prop}
    (hI : ∀ s a s', I s → step s a = some s' → I s')
    (h : ∀ s a, I s → R s a → (P s a ↔ Q s a)) {s : σ} {as : List α} (hs : I s)
    (hR : StepsMeet step R s as) : StepsMeet step P s as ↔ StepsMeet step Q s as := by
  induction as generalizing s with
  | nil => exact Iff.rfl
  | cons a as ih =>
    refine and_congr (h s a hs hR.1) (forall₂_congr fun s' hs' => ?_)
    exact ih (hI s a s' hs hs') (hR.2 s' hs')

/-- A run in two parts. -/
theorem StepsMeet.append {step : σ → α → Option σ} {P : σ → α → Prop} {s s₁ : σ} {as bs : List α}
    (has : StepsMeet step P s as) (hrun : runSteps step s as = some s₁)
    (hbs : StepsMeet step P s₁ bs) : StepsMeet step P s (as ++ bs) := by
  induction as generalizing s with
  | nil =>
    cases hrun
    exact hbs
  | cons a as ih =>
    obtain ⟨s₂, hstep, hrest⟩ := runSteps_cons hrun
    refine ⟨has.1, ?_⟩
    intro s' hs'
    obtain rfl : s₂ = s' := Option.some.inj (hstep.symm.trans hs')
    exact ih (has.2 s₂ hstep) hrest

/-- The parts of a run. -/
theorem StepsMeet.split {step : σ → α → Option σ} {P : σ → α → Prop} {s t : σ} {as bs : List α}
    (h : StepsMeet step P s (as ++ bs)) (hrun : runSteps step s as = some t) :
    StepsMeet step P s as ∧ StepsMeet step P t bs := by
  induction as generalizing s with
  | nil =>
    cases hrun
    exact ⟨trivial, h⟩
  | cons a as ih =>
    obtain ⟨s₁, hstep, hrest⟩ := runSteps_cons hrun
    refine ⟨⟨h.1, fun s' hs' => ?_⟩, (ih (h.2 s₁ hstep) hrest).2⟩
    obtain rfl : s₁ = s' := Option.some.inj (hstep.symm.trans hs')
    exact (ih (h.2 s₁ hstep) hrest).1

/-- **The rule for exact conditions.** If `J` is kept by exactly the steps that meet `P`, then `J`
holds in all states along a run exactly if all its steps meet `P`. `I` holds along every run. -/
theorem stepsMeet_iff {step : σ → α → Option σ} {P : σ → α → Prop} {I J : σ → Prop}
    (hI : ∀ s a s', I s → step s a = some s' → I s')
    (hP : ∀ s a, I s → J s → (P s a ↔ ∀ s', step s a = some s' → J s')) {s : σ} {as : List α}
    (hs : I s) (hJ : J s) :
    (∀ pre t, pre <+: as → runSteps step s pre = some t → J t) ↔ StepsMeet step P s as := by
  induction as generalizing s with
  | nil =>
    refine ⟨fun _ => trivial, fun _ pre t hpre hrun => ?_⟩
    rw [List.prefix_nil.1 hpre] at hrun
    cases hrun
    exact hJ
  | cons a as ih =>
    constructor
    · intro hall
      have hnext : ∀ s', step s a = some s' → J s' := fun s' hs' =>
        hall [a] s' ⟨as, rfl⟩ (by simp [runSteps, hs'])
      refine ⟨(hP s a hs hJ).2 hnext, fun s' hs' => ?_⟩
      refine (ih (hI s a s' hs hs') (hnext s' hs')).1 fun pre t hpre hrun => ?_
      exact hall (a :: pre) t ((List.prefix_cons_inj a).2 hpre) (by simpa [runSteps, hs'] using hrun)
    · rintro ⟨hok, hmeet⟩ pre t hpre hrun
      cases pre with
      | nil =>
        cases hrun
        exact hJ
      | cons b pre =>
        obtain ⟨rfl, hrestpre⟩ := List.cons_prefix_cons.1 hpre
        obtain ⟨s', hs', hrest⟩ := runSteps_cons hrun
        exact (ih (hI s b s' hs hs') ((hP s b hs hJ).1 hok s' hs')).2 (hmeet s' hs') pre t hrestpre
          hrest

/-- The system with a history that each step extends by what it does. -/
def withHistory (step : σ → α → Option σ) (extend : σ → α → τ → τ) (p : σ × τ) (a : α) :
    Option (σ × τ) :=
  (step p.1 a).map fun s => (s, extend p.1 a p.2)

/-- **The rule for histories.** A history stands in the way of no run. -/
theorem runSteps_withHistory {step : σ → α → Option σ} (extend : σ → α → τ → τ) {s s' : σ}
    {as : List α} (h : runSteps step s as = some s') (t : τ) :
    ∃ t', runSteps (withHistory step extend) (s, t) as = some (s', t') := by
  induction as generalizing s t with
  | nil =>
    cases h
    exact ⟨t, rfl⟩
  | cons a as ih =>
    obtain ⟨s₁, hstep, hrest⟩ := runSteps_cons h
    obtain ⟨t', ht'⟩ := ih hrest (extend s a t)
    refine ⟨t', ?_⟩
    rw [runSteps, withHistory, hstep]
    exact ht'

/-- Whether a concrete run meets a decidable condition is decidable. -/
instance decidableStepsMeet {step : σ → α → Option σ} {P : σ → α → Prop}
    [∀ s a, Decidable (P s a)] : ∀ s as, Decidable (StepsMeet step P s as)
  | _, [] => isTrue trivial
  | s, a :: as =>
    match h : step s a with
    | none => decidable_of_iff (P s a) (by simp [StepsMeet, h])
    | some s₁ =>
      have := @decidableStepsMeet step P _ s₁ as
      decidable_of_iff (P s a ∧ StepsMeet step P s₁ as) (by simp [StepsMeet, h])

/-- Tasks are often kept as a list of program counters: moving one task changes the number of
tasks at each place by that task alone. -/
theorem countP_set_add {l : List α} {i : ℕ} {a : α} (b : α) (p : α → Bool) (h : l[i]? = some a) :
    (l.set i b).countP p + (if p a then 1 else 0) = l.countP p + (if p b then 1 else 0) := by
  obtain ⟨hi, rfl⟩ := List.getElem?_eq_some_iff.1 h
  have hpos : p l[i] = true → 0 < l.countP p := fun hp =>
    List.countP_pos_iff.2 ⟨l[i], List.getElem_mem hi, hp⟩
  rw [List.countP_set hi]
  by_cases hp : p l[i] = true
  · have := hpos hp
    simp only [hp, if_true]
    omega
  · simp [hp]

/-- Things are often owned by the entries of a list: changing one entry changes how often a thing is
owned by that entry alone. -/
theorem count_flatMap_modify [DecidableEq ω] {l : List α} {i : ℕ} {a : α} (f : α → List ω) (g : α → α)
    (x : ω) (h : l[i]? = some a) :
    ((l.modify i g).flatMap f).count x + (f a).count x =
      (l.flatMap f).count x + (f (g a)).count x := by
  induction l generalizing i with
  | nil => simp at h
  | cons y l ih =>
    cases i with
    | zero =>
      obtain rfl : y = a := by simpa using h
      simp only [List.modify_zero_cons, List.flatMap_cons, List.count_append]
      omega
    | succ i =>
      have := ih (i := i) (by simpa using h)
      simp only [List.modify_succ_cons, List.flatMap_cons, List.count_append]
      omega

/-- Two changes of an element that give the same list. -/
theorem flatMap_modify_congr {l : List α} {i : ℕ} {f : α → List ω} {g g' : α → α}
    (h : ∀ a, f (g a) = f (g' a)) : (l.modify i g).flatMap f = (l.modify i g').flatMap f := by
  induction l generalizing i with
  | nil => simp
  | cons y l ih => cases i <;> simp [h, ih]

/-- Run a list of calls and collect what they return. -/
def runCalls (step : σ → α → ω × σ) : σ → List α → List ω × σ
  | s, [] => ([], s)
  | s, a :: as =>
    let (o, s) := step s a
    let (os, s) := runCalls step s as
    (o :: os, s)

/-- **The simulation rule.** Two systems whose calls return the same and keep a relation
between their states return the same along every list of calls. -/
theorem runCalls_sim {step : σ → α → ω × σ} {step' : τ → α → ω × τ} {R : σ → τ → Prop}
    {V : α → Prop}
    (hstep : ∀ s t a, R s t → V a → (step s a).1 = (step' t a).1 ∧ R (step s a).2 (step' t a).2)
    {s : σ} {t : τ} {as : List α} (h : R s t) (hV : ∀ a ∈ as, V a) :
    (runCalls step s as).1 = (runCalls step' t as).1 ∧
      R (runCalls step s as).2 (runCalls step' t as).2 := by
  induction as generalizing s t with
  | nil => exact ⟨rfl, h⟩
  | cons a as ih =>
    obtain ⟨hout, hR⟩ := hstep s t a h (hV a (by simp))
    obtain ⟨houts, hRs⟩ := ih hR (fun b hb => hV b (List.mem_cons_of_mem _ hb))
    exact ⟨by simp only [runCalls]; rw [hout, houts], hRs⟩

end GenieSdk.Lib
