import GenieSdk.Model.Bitmap

/-!
# Bitmaps

What the bit searches of `k_bitmap.h` find.
-/

set_option autoImplicit false

namespace GenieSdk.Analysis

open GenieSdk.Model

/-- With the top bit among the upper `2 * k`, a stage brings it among the upper `k`. -/
theorem clzStage_spec {x k : ℕ} {p : ℕ × ℕ} (hk : k + k ≤ 32) (hp : p.1 = x * 2 ^ p.2)
    (hlo : 2 ^ (32 - (k + k)) ≤ p.1) (hhi : p.1 < 2 ^ 32) :
    (clzStage k p).1 = x * 2 ^ (clzStage k p).2 ∧ 2 ^ (32 - k) ≤ (clzStage k p).1 ∧
      (clzStage k p).1 < 2 ^ 32 := by
  unfold clzStage
  have hpow : 2 ^ (32 - k) = 2 ^ (32 - (k + k)) * 2 ^ k := by
    rw [← pow_add]
    congr 1
    omega
  by_cases h : p.1 / 2 ^ (32 - k) = 0
  · have hlt : p.1 < 2 ^ (32 - k) := (Nat.div_eq_zero_iff_lt (by positivity)).1 h
    rw [if_pos h]
    refine ⟨?_, ?_, ?_⟩
    · rw [hp, pow_add, mul_assoc]
    · rw [hpow]
      exact Nat.mul_le_mul_right _ hlo
    · calc p.1 * 2 ^ k < 2 ^ (32 - k) * 2 ^ k := Nat.mul_lt_mul_of_pos_right hlt (by positivity)
        _ = 2 ^ 32 := by rw [← pow_add]; congr 1; omega
  · rw [if_neg h]
    refine ⟨hp, ?_, hhi⟩
    by_contra hc
    exact h (Nat.div_eq_of_lt (by omega))

/-- The leading zeros put the highest bit at the top. -/
theorem krhinoClz32_spec {x : ℕ} (h0 : 0 < x) (hx : x < 2 ^ 32) :
    2 ^ 31 ≤ x * 2 ^ krhinoClz32 x ∧ x * 2 ^ krhinoClz32 x < 2 ^ 32 := by
  obtain ⟨e1, l1, u1⟩ :=
    @clzStage_spec x 16 (x, 0) (by norm_num) (by simp) (by simp only [Nat.reduceAdd, Nat.sub_self, pow_zero]; omega) hx
  obtain ⟨e2, l2, u2⟩ := @clzStage_spec x 8 _ (by norm_num) e1 l1 u1
  obtain ⟨e3, l3, u3⟩ := @clzStage_spec x 4 _ (by norm_num) e2 l2 u2
  obtain ⟨e4, l4, u4⟩ := @clzStage_spec x 2 _ (by norm_num) e3 l3 u3
  obtain ⟨e5, l5, u5⟩ := @clzStage_spec x 1 _ (by norm_num) e4 l4 u4
  unfold krhinoClz32
  rw [if_neg (by omega)]
  rw [e5] at l5 u5
  exact ⟨l5, u5⟩

/-- A stage of the search for the lowest bit takes zeros away. -/
theorem ctzStage_spec {x k : ℕ} {p : ℕ × ℕ} (hp : x = p.1 * 2 ^ p.2)
    (hlow : p.1 % 2 ^ (k + k) ≠ 0) :
    x = (ctzStage k p).1 * 2 ^ (ctzStage k p).2 ∧ (ctzStage k p).1 % 2 ^ k ≠ 0 := by
  unfold ctzStage
  by_cases h : p.1 % 2 ^ k = 0
  · rw [if_pos h]
    have hdiv : p.1 = p.1 / 2 ^ k * 2 ^ k := (Nat.div_mul_cancel (Nat.dvd_of_mod_eq_zero h)).symm
    refine ⟨?_, ?_⟩
    · rw [hp, pow_add]
      conv_lhs => rw [hdiv]
      ring
    · intro hz
      apply hlow
      rw [pow_add]
      apply Nat.mod_eq_zero_of_dvd
      rw [hdiv]
      exact Nat.mul_dvd_mul (Nat.dvd_of_mod_eq_zero hz) (dvd_refl _)
  · rw [if_neg h]
    exact ⟨hp, h⟩

/-- The trailing zeros leave an odd number. -/
theorem krhinoCtz32_spec {x : ℕ} (h0 : 0 < x) (hx : x < 2 ^ 32) :
    ∃ y, x = y * 2 ^ krhinoCtz32 x ∧ y % 2 = 1 := by
  obtain ⟨e1, l1⟩ :=
    @ctzStage_spec x 16 (x, 0) (by simp) (by rw [Nat.mod_eq_of_lt hx]; omega)
  obtain ⟨e2, l2⟩ := @ctzStage_spec x 8 _ e1 l1
  obtain ⟨e3, l3⟩ := @ctzStage_spec x 4 _ e2 l2
  obtain ⟨e4, l4⟩ := @ctzStage_spec x 2 _ e3 l3
  obtain ⟨e5, l5⟩ := @ctzStage_spec x 1 _ e4 l4
  unfold krhinoCtz32
  rw [if_neg (by omega)]
  exact ⟨_, e5, by omega⟩

/-- `32 - krhino_clz32 x` is the length of `x` in bits. -/
theorem bitLen_spec {x : ℕ} (h0 : 0 < x) (hx : x < 2 ^ 32) :
    ∃ c, 32 - krhinoClz32 x = c + 1 ∧ 2 ^ c ≤ x ∧ x < 2 ^ (c + 1) := by
  obtain ⟨hlo, hhi⟩ := krhinoClz32_spec h0 hx
  have hc : krhinoClz32 x ≤ 31 := by
    by_contra hc
    have : 2 ^ 32 ≤ 2 ^ krhinoClz32 x := Nat.pow_le_pow_right (by norm_num) (by omega)
    have : 2 ^ krhinoClz32 x ≤ x * 2 ^ krhinoClz32 x := Nat.le_mul_of_pos_left _ h0
    omega
  refine ⟨31 - krhinoClz32 x, by omega, ?_, ?_⟩
  · apply Nat.le_of_mul_le_mul_right _ (Nat.two_pow_pos (krhinoClz32 x))
    rw [← pow_add, Nat.sub_add_cancel hc]
    exact hlo
  · apply Nat.lt_of_mul_lt_mul_right (a := 2 ^ krhinoClz32 x)
    rw [← pow_add, show 31 - krhinoClz32 x + 1 + krhinoClz32 x = 32 by omega]
    exact hhi

/-- Clearing one bit of a word. -/
theorem testBit_clear {b l k : ℕ} (hk : k < 32) :
    (b &&& (0xFFFFFFFF ^^^ 2 ^ l)).testBit k = (b.testBit k && decide (l ≠ k)) := by
  rw [Nat.testBit_and, Nat.testBit_xor, Nat.testBit_two_pow,
    show 0xFFFFFFFF = 2 ^ 32 - 1 by norm_num, Nat.testBit_two_pow_sub_one]
  by_cases h : l = k
  · simp [h, hk]
  · simp [h, hk]

/-- Bit `nr` of a bitmap. -/
def bitmapTest (bitmap : List ℕ) (nr : ℕ) : Bool :=
  (bitmap.getD (nr / 32) 0).testBit (31 - nr % 32)

/-- Two bits of one word have different masks. -/
theorem bit_index_inj {nr k : ℕ} (hw : k / 32 = nr / 32) : 31 - nr % 32 = 31 - k % 32 ↔ k = nr := by
  omega

/-- Setting a bit sets that one. -/
theorem bitmapTest_set {bitmap : List ℕ} {nr : ℕ} (hnr : nr / 32 < bitmap.length) (k : ℕ) :
    bitmapTest (krhinoBitmapSet bitmap nr) k = (bitmapTest bitmap k || decide (k = nr)) := by
  unfold bitmapTest krhinoBitmapSet bitmapMask
  by_cases hw : k / 32 = nr / 32
  · rw [hw, List.getD_eq_getElem?_getD, List.getElem?_set_self hnr, Option.getD_some,
      Nat.testBit_or, Nat.testBit_two_pow]
    simp only [bit_index_inj hw]
  · have hne : k ≠ nr := fun h => hw (by rw [h])
    rw [List.getD_eq_getElem?_getD, List.getElem?_set_ne (Ne.symm hw), ← List.getD_eq_getElem?_getD]
    simp [hne]

/-- Clearing a bit clears that one. -/
theorem bitmapTest_clear {bitmap : List ℕ} {nr : ℕ} (hnr : nr / 32 < bitmap.length) (k : ℕ) :
    bitmapTest (krhinoBitmapClear bitmap nr) k = (bitmapTest bitmap k && decide (k ≠ nr)) := by
  unfold bitmapTest krhinoBitmapClear bitmapMask
  by_cases hw : k / 32 = nr / 32
  · rw [hw, List.getD_eq_getElem?_getD, List.getElem?_set_self hnr, Option.getD_some,
      testBit_clear (by omega)]
    simp only [ne_eq, bit_index_inj hw]
  · have hne : k ≠ nr := fun h => hw (by rw [h])
    rw [List.getD_eq_getElem?_getD, List.getElem?_set_ne (Ne.symm hw), ← List.getD_eq_getElem?_getD]
    simp [hne]

/-- The highest bit of a word, counted from the left. -/
theorem clz_first {x : ℕ} (h0 : 0 < x) (hx : x < 2 ^ 32) :
    krhinoClz32 x ≤ 31 ∧ x.testBit (31 - krhinoClz32 x) = true ∧
      ∀ k < krhinoClz32 x, x.testBit (31 - k) = false := by
  obtain ⟨c, hc, hlo, hhi⟩ := bitLen_spec h0 hx
  have hclz : krhinoClz32 x ≤ 31 := by omega
  have hlen : 31 - krhinoClz32 x = c := by omega
  refine ⟨hclz, ?_, ?_⟩
  · rw [hlen, Nat.testBit_eq_decide_div_mod_eq, Nat.div_eq_of_lt_le (k := 1)]
    · rfl
    · omega
    · rw [pow_succ] at hhi
      omega
  · intro k hk
    apply Nat.testBit_lt_two_pow
    apply lt_of_lt_of_le hhi
    exact Nat.pow_le_pow_right (by norm_num) (by omega)

/-- The words of a bitmap have 32 bits. -/
def BitmapWords (bitmap : List ℕ) : Prop := ∀ w ∈ bitmap, w < 2 ^ 32

/-- **What `krhino_find_first_bit` finds** is the first bit that is set. -/
theorem krhinoFindFirstBit_spec {bitmap : List ℕ} {i : ℕ} (hw : BitmapWords bitmap)
    (h : krhinoFindFirstBit bitmap = some i) :
    bitmapTest bitmap i = true ∧ ∀ k < i, bitmapTest bitmap k = false := by
  induction bitmap generalizing i with
  | nil => simp [krhinoFindFirstBit] at h
  | cons word bitmap ih =>
    unfold krhinoFindFirstBit at h
    by_cases h0 : word = 0
    · rw [if_pos h0, Option.map_eq_some_iff] at h
      obtain ⟨j, hj, rfl⟩ := h
      obtain ⟨hset, hfirst⟩ := ih (fun w hm => hw w (List.mem_cons_of_mem _ hm)) hj
      have hshift : ∀ k, bitmapTest (word :: bitmap) (k + 32) = bitmapTest bitmap k := by
        intro k
        unfold bitmapTest
        rw [Nat.add_div_right k (by norm_num), List.getD_cons_succ, Nat.add_mod_right]
      refine ⟨by rw [hshift, hset], ?_⟩
      intro k hk
      by_cases hk32 : k < 32
      · unfold bitmapTest
        rw [Nat.div_eq_of_lt hk32, List.getD_cons_zero, h0, Nat.zero_testBit]
      · obtain ⟨m, rfl⟩ : ∃ m, k = m + 32 := ⟨k - 32, by omega⟩
        rw [hshift]
        exact hfirst m (by omega)
    · rw [if_neg h0, Option.some.injEq] at h
      subst h
      obtain ⟨hle, hset, hfirst⟩ := clz_first (Nat.pos_of_ne_zero h0) (hw word (by simp))
      refine ⟨?_, ?_⟩
      · unfold bitmapTest
        rw [Nat.div_eq_of_lt (by omega), Nat.mod_eq_of_lt (by omega)]
        exact hset
      · intro k hk
        unfold bitmapTest
        rw [Nat.div_eq_of_lt (by omega), Nat.mod_eq_of_lt (by omega)]
        exact hfirst k hk

/-- A search that has something to find ends. -/
theorem krhinoFindFirstBit_total {bitmap : List ℕ} {k : ℕ} (h : bitmapTest bitmap k = true) :
    ∃ i, krhinoFindFirstBit bitmap = some i := by
  induction bitmap generalizing k with
  | nil => simp [bitmapTest] at h
  | cons word bitmap ih =>
    unfold krhinoFindFirstBit
    by_cases h0 : word = 0
    · rw [if_pos h0]
      have hk : ¬ k < 32 := by
        intro hk
        unfold bitmapTest at h
        rw [Nat.div_eq_of_lt hk, List.getD_cons_zero, h0, Nat.zero_testBit] at h
        cases h
      obtain ⟨m, rfl⟩ : ∃ m, k = m + 32 := ⟨k - 32, by omega⟩
      unfold bitmapTest at h
      rw [Nat.add_div_right m (by norm_num), List.getD_cons_succ, Nat.add_mod_right] at h
      obtain ⟨i, hi⟩ := ih h
      exact ⟨i + 32, by rw [hi]; rfl⟩
    · exact ⟨_, if_neg h0⟩

/-- A word read from a bitmap, or 0. -/
theorem BitmapWords.getD {bitmap : List ℕ} (h : BitmapWords bitmap) (i : ℕ) :
    bitmap.getD i 0 < 2 ^ 32 := by
  rw [List.getD_eq_getElem?_getD]
  cases hi : bitmap[i]? with
  | none => simp
  | some w => exact h w (List.mem_of_getElem? hi)

/-- Setting a bit leaves words of 32 bits. -/
theorem BitmapWords.set {bitmap : List ℕ} (h : BitmapWords bitmap) (nr : ℕ) :
    BitmapWords (krhinoBitmapSet bitmap nr) := by
  intro w hw
  obtain hw | rfl := List.mem_or_eq_of_mem_set hw
  · exact h w hw
  · apply Nat.or_lt_two_pow (h.getD _)
    exact Nat.pow_lt_pow_right (by norm_num) (by omega)

/-- So does clearing one. -/
theorem BitmapWords.clear {bitmap : List ℕ} (h : BitmapWords bitmap) (nr : ℕ) :
    BitmapWords (krhinoBitmapClear bitmap nr) := by
  intro w hw
  obtain hw | rfl := List.mem_or_eq_of_mem_set hw
  · exact h w hw
  · exact lt_of_le_of_lt Nat.and_le_left (h.getD _)

end GenieSdk.Analysis
