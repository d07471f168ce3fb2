import Mathlib.Data.Set.Basic
import Mathlib.Tactic.Tauto

/-!
# A set kept in two places

A client changes a set `A` that a server holds as `F` by requests to add or to remove elements.
While a request is out, the client keeps the elements it is about in `P`, and **the two sets agree
off `P`**. Sending more, serving a part and hearing the same part again all keep this. The request
ends well in two ways: confirmed after all of `P` has been served, or given up before any of it
was.
-/

set_option autoImplicit false

namespace GenieSdk.Lib

variable {α : Type}

inductive SetOp
  | add
  | rem

/-- What a request with the elements `X` makes of `F`. -/
def SetOp.apply : SetOp → Set α → Set α → Set α
  | .add, F, X => F ∪ X
  | .rem, F, X => F \ X

/-- The server has done the request for all of `P`. -/
def SetOp.Done : SetOp → Set α → Set α → Prop
  | .add, P, F => ∀ a ∈ P, a ∈ F
  | .rem, P, F => ∀ a ∈ P, a ∉ F

/-- Client and server agree on everything that no request is out for. -/
def AgreeOff (P A F : Set α) : Prop := ∀ a, a ∉ P → (a ∈ F ↔ a ∈ A)

section

variable {op : SetOp} {A P Q F X : Set α}

/-- Two sets that agree everywhere are equal. -/
theorem agreeOff_empty : AgreeOff ∅ A F ↔ F = A := by
  simp [AgreeOff, Set.ext_iff]

/-- Sets that agree off a set agree off a larger one. -/
theorem AgreeOff.mono (h : AgreeOff P A F) (hPQ : P ⊆ Q) : AgreeOff Q A F :=
  fun a ha => h a fun haP => ha (hPQ haP)

/-- A request for elements of the set leaves the agreement off it. -/
theorem AgreeOff.serve (h : AgreeOff P A F) (hX : X ⊆ P) : AgreeOff P A (op.apply F X) := by
  intro a ha
  have haX : a ∉ X := fun haX => ha (hX haX)
  cases op with
  | add => simpa [SetOp.apply, haX] using h a ha
  | rem => simpa [SetOp.apply, haX] using h a ha

/-- The request is confirmed. -/
theorem AgreeOff.confirm (h : AgreeOff P A F) (hdone : op.Done P F) : F = op.apply A P := by
  ext a
  have ha := h a
  cases op with
  | add =>
    have hd := hdone a
    simp only [SetOp.apply, Set.mem_union]
    tauto
  | rem =>
    have hd := hdone a
    simp only [SetOp.apply, Set.mem_sdiff]
    tauto

/-- The request is given up before anything of it was done. -/
theorem AgreeOff.giveUp (h : AgreeOff P A F) (hP : ∀ a ∈ P, (a ∈ F ↔ a ∈ A)) : F = A := by
  ext a
  by_cases ha : a ∈ P
  · exact hP a ha
  · exact h a ha

/-- A request that is served is done. -/
theorem SetOp.Done.serve (hdone : op.Done (P \ X) F) : op.Done P (op.apply F X) := by
  cases op with
  | add =>
    intro a ha
    by_cases haX : a ∈ X
    · exact Or.inr haX
    · exact Or.inl (hdone a ⟨ha, haX⟩)
  | rem =>
    rintro a ha ⟨haF, haX⟩
    exact hdone a ⟨ha, haX⟩ haF

end

end GenieSdk.Lib
