import Mathlib.Data.List.Infix

/-!
# Flags that several owners share

Owners flag attributes, and from time to time the attributes flagged for an owner are reported.
`FlagsBelong` says that every report is about its owner: what it reports was flagged for the owner
and is not waited for by anybody else, and what was flagged for the owner is reported. Where one
word of flags serves all owners, a report contains whatever waits in the word, and **the reports
belong to their owners exactly if every report finds nothing that waits for another owner**
(`FlagsBelong.report_iff`).
-/

set_option autoImplicit false

namespace GenieSdk.Lib

variable {E A : Type} [DecidableEq E] [DecidableEq A]

/-- An attribute is flagged for an owner; some attributes are reported for an owner. -/
inductive FlagEvent (E A : Type)
  | flagged (owner : E) (a : A)
  | reported (owner : E) (as : List A)
  deriving DecidableEq

/-- `a` was flagged for `owner` and `owner` has not reported it since. -/
def outstanding (owner : E) (a : A) (log : List (FlagEvent E A)) : Bool :=
  log.foldl (fun out e =>
    match e with
    | .flagged o b => if o = owner ∧ b = a then true else out
    | .reported o as => if o = owner ∧ a ∈ as then false else out) false

/-- `a` was flagged for `owner` and `owner` has had no report since. -/
def due (owner : E) (a : A) (log : List (FlagEvent E A)) : Bool :=
  log.foldl (fun out e =>
    match e with
    | .flagged o b => if o = owner ∧ b = a then true else out
    | .reported o _ => if o = owner then false else out) false

/-- `a` was flagged for somebody and nobody has reported it since. -/
def waiting (a : A) (log : List (FlagEvent E A)) : Bool :=
  log.foldl (fun out e =>
    match e with
    | .flagged _ b => if b = a then true else out
    | .reported _ as => if a ∈ as then false else out) false

/-- A report of `owner` after `pre`: what it contains was flagged for the owner and is not waited
for by anybody else, and it contains what was flagged for the owner since its last report. -/
structure ReportBelongs (pre : List (FlagEvent E A)) (owner : E) (as : List A) : Prop where
  own : ∀ a ∈ as, outstanding owner a pre = true
  others : ∀ a ∈ as, ∀ o, o ≠ owner → outstanding o a pre = false
  all : ∀ a, due owner a pre = true → a ∈ as

/-- Every report belongs to its owner. -/
def FlagsBelong (log : List (FlagEvent E A)) : Prop :=
  ∀ pre owner as post, log = pre ++ .reported owner as :: post → ReportBelongs pre owner as

section Folds

variable (owner : E) (a : A) (log : List (FlagEvent E A))

@[simp] theorem outstanding_flagged (o : E) (b : A) :
    outstanding owner a (log ++ [.flagged o b]) =
      if o = owner ∧ b = a then true else outstanding owner a log := by
  simp [outstanding]

@[simp] theorem outstanding_reported (o : E) (as : List A) :
    outstanding owner a (log ++ [.reported o as]) =
      if o = owner ∧ a ∈ as then false else outstanding owner a log := by
  simp [outstanding]

@[simp] theorem due_flagged (o : E) (b : A) :
    due owner a (log ++ [.flagged o b]) = if o = owner ∧ b = a then true else due owner a log := by
  simp [due]

@[simp] theorem due_reported (o : E) (as : List A) :
    due owner a (log ++ [.reported o as]) = if o = owner then false else due owner a log := by
  simp [due]

omit [DecidableEq E] in
@[simp] theorem waiting_flagged (o : E) (b : A) :
    waiting a (log ++ [.flagged o b]) = if b = a then true else waiting a log := by
  simp [waiting]

omit [DecidableEq E] in
@[simp] theorem waiting_reported (o : E) (as : List A) :
    waiting a (log ++ [.reported o as]) = if a ∈ as then false else waiting a log := by
  simp [waiting]

end Folds

variable {log : List (FlagEvent E A)}

/-- Nothing was flagged or reported. -/
theorem flagsBelong_nil : FlagsBelong ([] : List (FlagEvent E A)) := fun pre _ _ _ heq => by
  cases pre <;> cases heq

/-- What holds of a log holds of its beginning. -/
theorem FlagsBelong.of_append {e : FlagEvent E A} (h : FlagsBelong (log ++ [e])) :
    FlagsBelong log := by
  intro pre owner as post heq
  exact h pre owner as (post ++ [e]) (by rw [heq]; simp)

/-- A further flag changes nothing. -/
theorem FlagsBelong.flagged (h : FlagsBelong log) (o : E) (b : A) :
    FlagsBelong (log ++ [.flagged o b]) := by
  intro pre owner as post heq
  rcases List.eq_nil_or_concat post with rfl | ⟨post', last, rfl⟩
  · cases (List.append_inj' heq rfl).2
  · rw [List.concat_eq_append, ← List.cons_append, ← List.append_assoc] at heq
    exact h pre owner as post' (List.append_inj' heq rfl).1

/-- A further report has to belong to its owner. -/
theorem FlagsBelong.reported_iff (h : FlagsBelong log) (o : E) (bs : List A) :
    FlagsBelong (log ++ [.reported o bs]) ↔ ReportBelongs log o bs := by
  constructor
  · intro hall
    exact hall log o bs [] rfl
  · intro hrep pre owner as post heq
    rcases List.eq_nil_or_concat post with rfl | ⟨post', last, rfl⟩
    · obtain ⟨rfl, hlast⟩ := List.append_inj' heq rfl
      cases hlast
      exact hrep
    · rw [List.concat_eq_append, ← List.cons_append, ← List.append_assoc] at heq
      exact h pre owner as post' (List.append_inj' heq rfl).1

/-- What waits was flagged for some owner that has not reported it. -/
theorem outstanding_of_waiting {a : A} (h : waiting a log = true) :
    ∃ owner, outstanding owner a log = true := by
  induction log using List.reverseRecOn with
  | nil => cases h
  | append_singleton log e ih =>
    cases e with
    | flagged o b =>
      by_cases hb : b = a
      · exact ⟨o, by simp [hb]⟩
      · obtain ⟨owner, ho⟩ := ih (by simpa [hb] using h)
        exact ⟨owner, by simp [ho]⟩
    | reported o as =>
      by_cases ha : a ∈ as
      · simp [ha] at h
      · obtain ⟨owner, ho⟩ := ih (by simpa [ha] using h)
        exact ⟨owner, by simp [ha, ho]⟩

/-- As long as the reports belong to their owners, nobody's flags get lost. -/
theorem FlagsBelong.waiting_of_outstanding (h : FlagsBelong log) {owner : E} {a : A}
    (hout : outstanding owner a log = true) : waiting a log = true := by
  induction log using List.reverseRecOn with
  | nil => cases hout
  | append_singleton log e ih =>
    cases e with
    | flagged o b =>
      by_cases hb : b = a
      · simp [hb]
      · simpa [hb] using ih h.of_append (by simpa [hb] using hout)
    | reported o as =>
      have hrep := h log o as [] rfl
      by_cases ha : a ∈ as
      · by_cases ho : o = owner
        · simp [ho, ha] at hout
        · have hnone := hrep.others a ha owner (Ne.symm ho)
          simp [ho, hnone] at hout
      · simpa [ha] using ih h.of_append (by simpa [ha] using hout)

/-- What an owner's next report has to contain has not been reported for it. -/
theorem outstanding_of_due {owner : E} {a : A} (h : due owner a log = true) :
    outstanding owner a log = true := by
  induction log using List.reverseRecOn with
  | nil => cases h
  | append_singleton log e ih =>
    cases e with
    | flagged o b =>
      by_cases hb : o = owner ∧ b = a
      · simp [hb]
      · simpa [hb] using ih (by simpa [hb] using h)
    | reported o as =>
      by_cases ho : o = owner
      · simp [ho] at h
      · simpa [ho] using ih (by simpa [ho] using h)

/-- **One word of flags for all owners.** A report of everything that waits belongs to its owner
exactly if nothing waits for anybody else. -/
theorem FlagsBelong.report_iff (h : FlagsBelong log) {owner : E} {as : List A}
    (has : ∀ a, a ∈ as ↔ waiting a log = true) :
    FlagsBelong (log ++ [.reported owner as]) ↔
      ∀ o, o ≠ owner → ∀ a, outstanding o a log = false := by
  rw [h.reported_iff]
  constructor
  · intro hrep o ho a
    by_contra hout
    have hwait := h.waiting_of_outstanding (by simpa using hout)
    exact hout (hrep.others a ((has a).2 hwait) o ho)
  · intro hnone
    refine ⟨fun a ha => ?_, fun a _ o ho => hnone o ho a, fun a hdue => ?_⟩
    · obtain ⟨o, ho⟩ := outstanding_of_waiting ((has a).1 ha)
      by_cases heq : o = owner
      · rwa [heq] at ho
      · simp [hnone o heq a] at ho
    · exact (has a).2 (h.waiting_of_outstanding (outstanding_of_due hdue))

end GenieSdk.Lib
