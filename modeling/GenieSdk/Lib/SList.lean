import Mathlib.Tactic

/-!
# Singly linked lists

A list of nodes threaded through one link field, a function from nodes to the next node, if any.
-/

set_option autoImplicit false

namespace GenieSdk.Lib

variable {α : Type}

/-- Following `nx` from `h` visits exactly `xs`. -/
def SList (nx : α → Option α) : Option α → List α → Prop
  | h, [] => h = none
  | h, x :: xs => h = some x ∧ SList nx (nx x) xs

variable {nx nx' : α → Option α} {h : Option α} {x : α} {xs ys : List α}

/-- A list depends on the links of its elements. -/
theorem SList.congr (hl : SList nx h xs) (hnx : ∀ y ∈ xs, nx' y = nx y) : SList nx' h xs := by
  induction xs generalizing h with
  | nil => exact hl
  | cons y ys ih =>
    obtain ⟨hh, hrest⟩ := hl
    refine ⟨hh, ?_⟩
    rw [hnx y (by simp)]
    exact ih hrest fun z hz => hnx z (List.mem_cons_of_mem _ hz)

/-- A list is determined by its head and its links. -/
theorem SList.unique (hx : SList nx h xs) (hy : SList nx h ys) : xs = ys := by
  induction xs generalizing h ys with
  | nil =>
    cases ys with
    | nil => rfl
    | cons y ys =>
      obtain ⟨hh, -⟩ := hy
      rw [show h = none from hx] at hh
      cases hh
  | cons x xs ih =>
    obtain ⟨rfl, hrest⟩ := hx
    cases ys with
    | nil => cases hy
    | cons y ys =>
      obtain ⟨hh, hrest'⟩ := hy
      cases hh
      rw [ih hrest hrest']

/-- A write to the link of a node that is not in the list. -/
theorem SList.update [DecidableEq α] (hl : SList nx h xs) (hx : x ∉ xs) (v : Option α) :
    SList (Function.update nx x v) h xs := by
  apply hl.congr
  intro y hy
  apply Function.update_of_ne
  rintro rfl
  exact hx hy

/-- An element is put in front. -/
theorem SList.push [DecidableEq α] (hl : SList nx h xs) (hx : x ∉ xs) :
    SList (Function.update nx x h) (some x) (x :: xs) := by
  refine ⟨rfl, ?_⟩
  rw [Function.update_self]
  exact hl.update hx h

end GenieSdk.Lib
