import Mathlib.Tactic

/-!
# Doubly linked lists

A list of nodes threaded through two link fields, ended by the null node 0. The fields are
functions from nodes to nodes; a memory supplies them by reading the two words of a node.
-/

set_option autoImplicit false

namespace GenieSdk.Lib

/-- Following `nx` from `h` visits exactly `xs`, and `pv` leads back, from the first node to `p`. -/
def DList (nx pv : ℕ → ℕ) : ℕ → ℕ → List ℕ → Prop
  | _, h, [] => h = 0
  | p, h, x :: xs => h = x ∧ x ≠ 0 ∧ pv x = p ∧ DList nx pv x (nx x) xs

variable {nx pv nx' pv' : ℕ → ℕ} {p h x : ℕ} {xs : List ℕ}

/-- A list depends on the links of its elements. -/
theorem DList.congr (hl : DList nx pv p h xs) (hnx : ∀ y ∈ xs, nx' y = nx y)
    (hpv : ∀ y ∈ xs, pv' y = pv y) : DList nx' pv' p h xs := by
  induction xs generalizing p h with
  | nil => exact hl
  | cons y ys ih =>
    obtain ⟨hh, hy, hp, hrest⟩ := hl
    have hrest' := ih hrest (fun z hz => hnx z (List.mem_cons_of_mem _ hz))
      (fun z hz => hpv z (List.mem_cons_of_mem _ hz))
    refine ⟨hh, hy, ?_, ?_⟩
    · rw [hpv y (by simp), hp]
    · rw [hnx y (by simp)]
      exact hrest'

/-- The fields determine the nodes. -/
theorem DList.unique {ys : List ℕ} (hl : DList nx pv p h xs) (hl' : DList nx pv p h ys) :
    xs = ys := by
  induction xs generalizing p h ys with
  | nil =>
    cases ys with
    | nil => rfl
    | cons y ys => exact absurd (hl'.1.symm.trans hl) hl'.2.1
  | cons x xs ih =>
    cases ys with
    | nil => exact absurd (hl.1.symm.trans hl') hl.2.1
    | cons y ys =>
      obtain rfl : x = y := hl.1.symm.trans hl'.1
      rw [ih hl.2.2.2 hl'.2.2.2]

/-- It begins with its head. -/
theorem DList.head_eq (hl : DList nx pv p h xs) : h = xs.headD 0 := by
  cases xs with
  | nil => exact hl
  | cons y ys => exact hl.1

/-- It is empty if the head is 0. -/
theorem DList.head_eq_zero_iff (hl : DList nx pv p h xs) : h = 0 ↔ xs = [] := by
  cases xs with
  | nil => exact ⟨fun _ => rfl, fun _ => hl⟩
  | cons y ys =>
    obtain ⟨rfl, hy, -⟩ := hl
    simpa using hy

/-- The successor of a node is another node or null. -/
theorem DList.next_mem (hl : DList nx pv p h xs) (hx : x ∈ xs) (h0 : nx x ≠ 0) : nx x ∈ xs := by
  induction xs generalizing p h with
  | nil => cases hx
  | cons y ys ih =>
    obtain ⟨-, -, -, hrest⟩ := hl
    rcases List.mem_cons.1 hx with rfl | hx
    · cases ys with
      | nil => exact absurd hrest h0
      | cons z zs =>
        rw [hrest.1]
        simp
    · exact List.mem_cons_of_mem _ (ih hrest hx)

/-- The predecessor of a node is another node, or the one before the list. -/
theorem DList.prev_mem (hl : DList nx pv p h xs) (hx : x ∈ xs) : pv x = p ∨ pv x ∈ xs := by
  induction xs generalizing p h with
  | nil => cases hx
  | cons y ys ih =>
    obtain ⟨-, -, hp, hrest⟩ := hl
    rcases List.mem_cons.1 hx with rfl | hx
    · exact .inl hp
    · rcases ih hrest hx with h1 | h1
      · exact .inr (by rw [h1]; simp)
      · exact .inr (List.mem_cons_of_mem _ h1)

/-- No element is next to itself. -/
theorem DList.next_ne (hl : DList nx pv p h xs) (hx : x ∈ xs) (hnd : xs.Nodup) : nx x ≠ x := by
  induction xs generalizing p h with
  | nil => cases hx
  | cons y ys ih =>
    obtain ⟨-, hy, -, hrest⟩ := hl
    rcases List.mem_cons.1 hx with rfl | hx
    · intro he
      cases ys with
      | nil => exact hy (he.symm.trans hrest)
      | cons z zs =>
        rw [he] at hrest
        simp [hrest.1] at hnd
    · exact ih hrest hx (List.nodup_cons.1 hnd).2

/-- Nor before itself. -/
theorem DList.prev_ne (hl : DList nx pv p h xs) (hx : x ∈ xs) (hnd : (p :: xs).Nodup) :
    pv x ≠ x := by
  induction xs generalizing p h with
  | nil => cases hx
  | cons y ys ih =>
    obtain ⟨-, -, hp, hrest⟩ := hl
    rcases List.mem_cons.1 hx with rfl | hx
    · rintro he
      rw [he] at hp
      simp [hp] at hnd
    · exact ih hrest hx (List.nodup_cons.1 hnd).2

/-- A node is the first one iff its predecessor is the one before the list. -/
theorem DList.prev_eq_iff (hl : DList nx pv p h xs) (hx : x ∈ xs) (hnd : (p :: xs).Nodup) :
    pv x = p ↔ h = x := by
  cases xs with
  | nil => cases hx
  | cons y ys =>
    obtain ⟨rfl, -, hp, hrest⟩ := hl
    rcases List.mem_cons.1 hx with rfl | hx
    · simp [hp]
    · have hne : h ≠ x := by
        rintro rfl
        exact (List.nodup_cons.1 (List.nodup_cons.1 hnd).2).1 hx
      refine ⟨fun hpx => ?_, fun he => absurd he hne⟩
      rcases hrest.prev_mem hx with h1 | h1
      · rw [h1] at hpx
        simp [hpx] at hnd
      · rw [hpx] at h1
        simp [h1] at hnd

/-- **Unlinking.** Redirecting the links around `x` takes exactly `x` out of the list. -/
theorem DList.erase (hl : DList nx pv p h xs) (hx : x ∈ xs) (hnd : (p :: xs).Nodup)
    (hnx : ∀ y ∈ xs, y ≠ x → nx' y = if y = pv x then nx x else nx y)
    (hpv : ∀ y ∈ xs, y ≠ x → pv' y = if y = nx x then pv x else pv y) :
    DList nx' pv' p (if h = x then nx x else h) (xs.erase x) := by
  induction xs generalizing p h with
  | nil => cases hx
  | cons y ys ih =>
    obtain ⟨rfl, hy, hp, hrest⟩ := hl
    have hpn : p ∉ h :: ys := (List.nodup_cons.1 hnd).1
    have hnd' : (h :: ys).Nodup := (List.nodup_cons.1 hnd).2
    by_cases hxy : h = x
    · -- `x` is the first node: its successor becomes the head
      subst hxy
      rw [if_pos rfl, List.erase_cons_head]
      cases ys with
      | nil => exact hrest
      | cons z zs =>
        obtain ⟨hz, hz0, hzp, hzs⟩ := hrest
        have hzx : z ≠ h := by
          rintro rfl
          simp at hnd'
        have hzs' : DList nx' pv' z (nx z) zs := by
          apply hzs.congr
          · intro w hw
            have hwx : w ≠ h := by
              rintro rfl
              simp [hw] at hnd'
            have hwp : w ≠ pv h := by
              rintro rfl
              rw [hp] at hw
              simp [hw] at hpn
            rw [hnx w (by simp [hw]) hwx, if_neg hwp]
          · intro w hw
            have hwx : w ≠ h := by
              rintro rfl
              simp [hw] at hnd'
            have hwz : w ≠ nx h := by
              rintro rfl
              rw [hz] at hw
              simp [hw] at hnd'
            rw [hpv w (by simp [hw]) hwx, if_neg hwz]
        have hzp' : z ≠ pv h := by
          rintro rfl
          rw [hp] at hpn
          simp at hpn
        refine ⟨hz, hz0, ?_, ?_⟩
        · rw [hpv z (by simp) hzx, if_pos hz.symm, hp]
        · rw [hnx z (by simp) hzx, if_neg hzp']
          exact hzs'
    · have hx' : x ∈ ys := (List.mem_cons.1 hx).resolve_left (fun e => hxy e.symm)
      rw [if_neg hxy, List.erase_cons_tail (by simpa using hxy)]
      have hih := ih hrest hx' hnd' (fun w hw => hnx w (List.mem_cons_of_mem _ hw))
        (fun w hw => hpv w (List.mem_cons_of_mem _ hw))
      have hfirst := hrest.prev_eq_iff hx' hnd'
      have hyn : h ≠ nx x := by
        intro he
        have hmem := hrest.next_mem hx' (he ▸ hy)
        rw [← he] at hmem
        exact (List.nodup_cons.1 hnd').1 hmem
      refine ⟨rfl, hy, ?_, ?_⟩
      · rw [hpv h (by simp) hxy, if_neg hyn, hp]
      · rw [hnx h (by simp) hxy]
        by_cases hfx : h = pv x
        · rw [if_pos hfx]
          rw [if_pos (hfirst.1 hfx.symm)] at hih
          exact hih
        · rw [if_neg hfx]
          rw [if_neg (fun e => hfx (hfirst.2 e).symm)] at hih
          exact hih

/-- **Pushing.** A new first node. -/
theorem DList.push (hl : DList nx pv 0 h xs) (hx0 : x ≠ 0)
    (hnxx : nx' x = h) (hpvx : pv' x = 0) (hnx : ∀ y ∈ xs, nx' y = nx y)
    (hpv : ∀ y ∈ xs, pv' y = if y = h then x else pv y) (hnd : xs.Nodup) :
    DList nx' pv' 0 x (x :: xs) := by
  refine ⟨rfl, hx0, hpvx, ?_⟩
  rw [hnxx]
  cases xs with
  | nil => exact hl
  | cons y ys =>
    obtain ⟨rfl, hy0, -, hrest⟩ := hl
    refine ⟨rfl, hy0, ?_, ?_⟩
    · rw [hpv h (by simp), if_pos rfl]
    · rw [hnx h (by simp)]
      apply hrest.congr
      · exact fun z hz => hnx z (List.mem_cons_of_mem _ hz)
      · intro z hz
        have hne : z ≠ h := by
          rintro rfl
          simp [hz] at hnd
        rw [hpv z (List.mem_cons_of_mem _ hz), if_neg hne]

end GenieSdk.Lib
