import GenieSdk.Lib.DList
import GenieSdk.Analysis.Bitmap
import GenieSdk.Model.Mm

/-!
# The free lists of the heap

`size_to_level` orders sizes into levels, `k_mm_freelist_insert` and `k_mm_freelist_delete` edit
the doubly linked list of a level together with its bit of `free_bitmap`, and `find_up_level`
reads the bitmap. `FreelistsOk` says that the lists hold the blocks `fl l` for each level `l`;
the two edits keep it and touch no word but links of filed blocks.
-/

set_option autoImplicit false

namespace GenieSdk.Analysis

open GenieSdk.Lib GenieSdk.Model

/-! ## Levels -/

/-- A level is one of the free lists. -/
theorem sizeToLevel_lt {cfg : MmConfig} {size l : ℕ} (h : sizeToLevel cfg size = some l) :
    l < cfg.bitLevel := by
  unfold sizeToLevel at h
  have hmin := cfg.minBit_le
  have hlev : cfg.bitLevel = cfg.maxBit - 6 + 2 := rfl
  by_cases h1 : 32 - krhinoClz32 size < mmMinBit
  · rw [if_pos h1] at h
    cases h
    omega
  · rw [if_neg h1] at h
    by_cases h2 : cfg.maxBit < 32 - krhinoClz32 size
    · rw [if_pos h2] at h
      cases h
    · rw [if_neg h2] at h
      cases h
      simp only [mmMinBit] at h1 ⊢
      omega

/-- A size below `2 ^ MM_MAX_BIT` has a level. -/
theorem sizeToLevel_isSome {cfg : MmConfig} {size : ℕ} (h : size < cfg.maxSize) :
    ∃ l, sizeToLevel cfg size = some l := by
  unfold sizeToLevel
  simp only
  by_cases hmin : 32 - krhinoClz32 size < mmMinBit
  · exact ⟨0, if_pos hmin⟩
  · rw [if_neg hmin, if_neg]
    · exact ⟨_, rfl⟩
    · intro hc
      have hle : cfg.maxSize ≤ 2 ^ 32 :=
        Nat.pow_le_pow_right (by norm_num) (cfg.maxBit_le.trans (by norm_num))
      by_cases h0 : size = 0
      · subst h0
        simp [krhinoClz32] at hc
      · obtain ⟨c, hc1, hc2, -⟩ := bitLen_spec (Nat.pos_of_ne_zero h0) (h.trans_le hle)
        rw [hc1] at hc
        have : cfg.maxSize ≤ 2 ^ c := Nat.pow_le_pow_right (by norm_num) (by omega)
        omega

/-- A size from `2 ^ MM_MAX_BIT` on has none. -/
theorem sizeToLevel_eq_none {cfg : MmConfig} {size : ℕ} (h : cfg.maxSize ≤ size)
    (h32 : size < 2 ^ 32) : sizeToLevel cfg size = none := by
  have hpos : 0 < cfg.maxSize := Nat.two_pow_pos _
  have hmin := cfg.minBit_le
  obtain ⟨c, hc1, -, hc3⟩ := bitLen_spec (show 0 < size by omega) h32
  have hbit : cfg.maxBit < c + 1 := by
    by_contra hc
    have : 2 ^ (c + 1) ≤ cfg.maxSize := Nat.pow_le_pow_right (by norm_num) (by omega)
    omega
  unfold sizeToLevel
  simp only [hc1, mmMinBit]
  rw [if_neg (by omega), if_pos hbit]

/-- **Levels are monotone:** a block of a higher level is larger. -/
theorem lt_of_sizeToLevel_lt {cfg : MmConfig} {a b la lb : ℕ} (ha : sizeToLevel cfg a = some la)
    (hb : sizeToLevel cfg b = some lb) (hlt : la < lb) (hpos : 0 < b) (ha32 : a < 2 ^ 32)
    (hb32 : b < 2 ^ 32) : a < b := by
  by_contra hle
  obtain ⟨ca, ha1, -, ha3⟩ := bitLen_spec (by omega) ha32
  obtain ⟨cb, hb1, hb2, -⟩ := bitLen_spec hpos hb32
  have hcc : cb ≤ ca := by
    by_contra hc
    have : 2 ^ (ca + 1) ≤ 2 ^ cb := Nat.pow_le_pow_right (by norm_num) (by omega)
    omega
  unfold sizeToLevel at ha hb
  simp only [ha1, hb1, mmMinBit] at ha hb
  by_cases h1 : cb + 1 < 6
  · rw [if_pos h1] at hb
    cases hb
    omega
  · rw [if_neg h1] at hb
    rw [if_neg (by omega)] at ha
    by_cases h2 : cfg.maxBit < ca + 1
    · rw [if_pos h2] at ha
      cases ha
    · rw [if_neg h2] at ha
      rw [if_neg (by omega)] at hb
      cases ha
      cases hb
      omega

/-! ## Words and links -/

@[simp] theorem setWord_same (m : Words) (a v : ℕ) : setWord m a v a = v := if_pos rfl

/-- A write leaves the other words. -/
theorem setWord_ne {m : Words} {a b v : ℕ} (h : b ≠ a) : setWord m a v b = m b := if_neg h

/-- The list of every level holds the blocks `fl`, and `free_bitmap` marks the levels in use. -/
structure FreelistsOk (cfg : MmConfig) (s : MmHead) (fl : ℕ → List ℕ) : Prop where
  list : ∀ l < cfg.bitLevel,
    DList (fun x => s.mem (x + 20)) (fun x => s.mem (x + 16)) 0 (s.freelist l) (fl l)
  bit : ∀ l < cfg.bitLevel, s.freeBitmap.testBit l = true ↔ fl l ≠ []
  bitmap_lt : s.freeBitmap < 2 ^ 32
  nodup : ∀ l, (fl l).Nodup
  aligned : ∀ l, ∀ x ∈ fl l, x % 8 = 0
  pos : ∀ l, ∀ x ∈ fl l, x ≠ 0
  level_unique : ∀ l k x, x ∈ fl l → x ∈ fl k → l = k

/-- The address is no link word of a filed block. -/
def NoLink (fl : ℕ → List ℕ) (a : ℕ) : Prop := ∀ l, ∀ y ∈ fl l, a ≠ y + 16 ∧ a ≠ y + 20

/-- The lists read only link words. -/
theorem FreelistsOk.congr {cfg : MmConfig} {s s' : MmHead} {fl : ℕ → List ℕ}
    (h : FreelistsOk cfg s fl) (hfl : s'.freelist = s.freelist) (hbm : s'.freeBitmap = s.freeBitmap)
    (hmem : ∀ l, ∀ y ∈ fl l, s'.mem (y + 16) = s.mem (y + 16) ∧ s'.mem (y + 20) = s.mem (y + 20)) :
    FreelistsOk cfg s' fl := by
  refine ⟨?_, ?_, ?_, h.nodup, h.aligned, h.pos, h.level_unique⟩
  · intro l hl
    rw [hfl]
    exact (h.list l hl).congr (fun y hy => (hmem l y hy).2) (fun y hy => (hmem l y hy).1)
  · rw [hbm]
    exact h.bit
  · rw [hbm]
    exact h.bitmap_lt

@[simp] theorem kMmFreelistDelete_fixPool (cfg : MmConfig) (s : MmHead) (x : ℕ) :
    (kMmFreelistDelete cfg s x).fixPool = s.fixPool := by
  unfold kMmFreelistDelete
  split
  · rfl
  · split <;> rfl

@[simp] theorem kMmFreelistDelete_pool (cfg : MmConfig) (s : MmHead) (x : ℕ) :
    (kMmFreelistDelete cfg s x).pool = s.pool := by
  unfold kMmFreelistDelete
  split
  · rfl
  · split <;> rfl

/-- The memory after the block `x` between `p` and `n` has been unlinked. -/
def unlinkWords (m : Words) (x n p : ℕ) : Words := fun a =>
  if a = x + 16 ∨ a = x + 20 then 0
  else if p ≠ 0 ∧ a = p + 20 then n
  else if n ≠ 0 ∧ a = n + 16 then p
  else m a

/-- What `k_mm_freelist_delete` does to a block that is filed. -/
theorem kMmFreelistDelete_eq {cfg : MmConfig} {s : MmHead} {x l : ℕ}
    (hl : sizeToLevel cfg (mmGetBufSize s.mem x) = some l)
    (hnx : s.mem (x + 20) ≠ x) (hpv : s.mem (x + 16) ≠ x)
    (hal : s.mem (x + 20) % 8 = 0) (hx : x % 8 = 0) :
    kMmFreelistDelete cfg s x =
      { s with
        mem := unlinkWords s.mem x (s.mem (x + 20)) (s.mem (x + 16))
        freelist :=
          if s.freelist l = x then setAt s.freelist l (s.mem (x + 20)) else s.freelist
        freeBitmap :=
          if s.freelist l = x ∧ s.mem (x + 20) = 0 then
            s.freeBitmap &&& (0xFFFFFFFF ^^^ 2 ^ l)
          else s.freeBitmap } := by
  generalize hn : s.mem (x + 20) = n at *
  generalize hp : s.mem (x + 16) = p at *
  unfold kMmFreelistDelete
  rw [hl]
  simp only
  rw [if_neg (by have := sizeToLevel_lt hl; omega)]
  have h1 : (if n ≠ 0 then setWord s.mem (n + 16) p else s.mem) (x + 16) = p := by
    by_cases h0 : n = 0
    · simp [h0, hp]
    · rw [if_pos h0, setWord_ne (by omega), hp]
  have h2 : (if n ≠ 0 then setWord s.mem (n + 16) p else s.mem) (x + 20) = n := by
    by_cases h0 : n = 0
    · simp [h0, hn]
    · rw [if_pos h0, setWord_ne (by omega), hn]
  have h3 : (if p ≠ 0 then setWord (if n ≠ 0 then setWord s.mem (n + 16) p else s.mem) (p + 20) n
      else if n ≠ 0 then setWord s.mem (n + 16) p else s.mem) (x + 20) = n := by
    by_cases h0 : p = 0
    · rw [if_neg (not_not.2 h0), h2]
    · rw [if_pos h0, setWord_ne (by omega), h2]
  simp only [hn, hp, h1, h2, h3]
  congr 1
  funext a
  unfold unlinkWords
  by_cases ha : a = x + 16 ∨ a = x + 20
  · rw [if_pos ha]
    rcases ha with rfl | rfl
    · rw [setWord_ne (by omega), setWord_same]
    · rw [setWord_same]
  · rw [if_neg ha, setWord_ne (by omega), setWord_ne (by omega)]
    by_cases hp0 : p = 0
    · by_cases hn0 : n = 0
      · simp [hp0, hn0]
      · simp [hp0, hn0, setWord]
    · by_cases hn0 : n = 0
      · simp [hp0, hn0, setWord]
      · simp [hp0, hn0, setWord]

/-- `k_mm_freelist_delete` takes a filed block out of its list, and does nothing to a
block too large to be filed. -/
theorem FreelistsOk.delete {cfg : MmConfig} {s : MmHead} {fl : ℕ → List ℕ} {x : ℕ}
    (h : FreelistsOk cfg s fl)
    (hfiled : ∀ l, x ∈ fl l ↔ sizeToLevel cfg (mmGetBufSize s.mem x) = some l) :
    FreelistsOk cfg (kMmFreelistDelete cfg s x) (fun k => (fl k).erase x) ∧
      ∀ a, NoLink fl a → (kMmFreelistDelete cfg s x).mem a = s.mem a := by
  cases hlev : sizeToLevel cfg (mmGetBufSize s.mem x) with
  | none =>
    have hnot : ∀ l, (fl l).erase x = fl l := by
      intro l
      apply List.erase_of_not_mem
      rw [hfiled, hlev]
      simp
    have hsame : kMmFreelistDelete cfg s x = s := by
      unfold kMmFreelistDelete
      rw [hlev]
    rw [hsame]
    refine ⟨?_, fun _ _ => rfl⟩
    simpa only [hnot] using h
  | some l =>
    have hx : x ∈ fl l := (hfiled l).2 hlev
    have hlt := sizeToLevel_lt hlev
    have hlist := h.list l hlt
    have hnd : (0 :: fl l).Nodup :=
      List.nodup_cons.2 ⟨fun h0 => h.pos l 0 h0 rfl, h.nodup l⟩
    have hxal := h.aligned l x hx
    have hnx := hlist.next_ne hx (h.nodup l)
    have hpv := hlist.prev_ne hx hnd
    have hnxmem : s.mem (x + 20) ≠ 0 → s.mem (x + 20) ∈ fl l := hlist.next_mem hx
    have hpvmem : s.mem (x + 16) = 0 ∨ s.mem (x + 16) ∈ fl l := hlist.prev_mem hx
    have hnxal : s.mem (x + 20) % 8 = 0 := by
      by_cases h0 : s.mem (x + 20) = 0
      · rw [h0]
      · exact h.aligned l _ (hnxmem h0)
    have heq := kMmFreelistDelete_eq hlev hnx hpv hnxal hxal
    generalize hn : s.mem (x + 20) = n at *
    generalize hp : s.mem (x + 16) = p at *
    have hother : ∀ k, k ≠ l → x ∉ fl k := fun k hk hxk => hk (h.level_unique k l x hxk hx)
    rw [heq]
    -- the link words of filed blocks, with their new contents
    have hF20 : ∀ k, ∀ y ∈ fl k, y ≠ x →
        unlinkWords s.mem x n p (y + 20) = if y = p then n else s.mem (y + 20) := by
      intro k y hy hyx
      unfold unlinkWords
      have hyal := h.aligned k y hy
      have hy0 := h.pos k y hy
      rw [if_neg (by omega)]
      by_cases hyp : y = p
      · rw [if_pos ⟨by omega, by omega⟩, if_pos hyp]
      · rw [if_neg (by omega), if_neg (by omega), if_neg hyp]
    have hF16 : ∀ k, ∀ y ∈ fl k, y ≠ x →
        unlinkWords s.mem x n p (y + 16) = if y = n then p else s.mem (y + 16) := by
      intro k y hy hyx
      unfold unlinkWords
      have hyal := h.aligned k y hy
      have hy0 := h.pos k y hy
      have hpal : p % 8 = 0 := by
        rcases hpvmem with h0 | hmem
        · omega
        · exact h.aligned l p hmem
      rw [if_neg (by omega), if_neg (by omega)]
      by_cases hyn : y = n
      · rw [if_pos ⟨by omega, by omega⟩, if_pos hyn]
      · rw [if_neg (by omega), if_neg hyn]
    have herase : DList (fun y => unlinkWords s.mem x n p (y + 20))
        (fun y => unlinkWords s.mem x n p (y + 16)) 0
        (if s.freelist l = x then n else s.freelist l) ((fl l).erase x) := by
      rw [← hn]
      apply hlist.erase hx hnd
      · intro y hy hyx
        simp only [hn, hp]
        exact hF20 l y hy hyx
      · intro y hy hyx
        simp only [hn, hp]
        exact hF16 l y hy hyx
    refine ⟨⟨?_, ?_, ?_, ?_, ?_, ?_, ?_⟩, ?_⟩
    · intro k hk
      by_cases hkl : k = l
      · subst hkl
        have hhead : (if s.freelist k = x then setAt s.freelist k n else s.freelist) k =
            if s.freelist k = x then n else s.freelist k := by
          split <;> simp [setAt]
        simp only [hhead]
        exact herase
      · have hhead : (if s.freelist l = x then setAt s.freelist l n else s.freelist) k =
            s.freelist k := by
          split <;> simp [setAt, hkl]
        simp only [hhead, List.erase_of_not_mem (hother k hkl)]
        apply (h.list k hk).congr
        · intro y hy
          have hyp : y ≠ p := by
            rintro rfl
            rcases hpvmem with h0 | hmem
            · exact h.pos k y hy h0
            · exact hkl (h.level_unique k l y hy hmem)
          rw [hF20 k y hy (fun e => hother k hkl (e ▸ hy)), if_neg hyp]
        · intro y hy
          have hyn : y ≠ n := by
            rintro rfl
            exact hkl (h.level_unique k l y hy (hnxmem (h.pos k y hy)))
          rw [hF16 k y hy (fun e => hother k hkl (e ▸ hy)), if_neg hyn]
    · intro k hk
      have hk32 : k < 32 := by
        have := cfg.maxBit_le
        simp only [MmConfig.bitLevel, mmMinBit] at hk
        omega
      have hbit := h.bit k hk
      by_cases hkl : k = l
      · subst hkl
        have hne : fl k ≠ [] := List.ne_nil_of_mem hx
        have hzero := herase.head_eq_zero_iff
        by_cases hlast : s.freelist k = x ∧ n = 0
        · have hnil : (fl k).erase x = [] := hzero.1 (by rw [if_pos hlast.1, hlast.2])
          simp [hlast, testBit_clear hk32, hnil]
        · have hnil : (fl k).erase x ≠ [] := by
            rw [← not_iff_not] at hzero
            apply hzero.1
            by_cases hhead : s.freelist k = x
            · rw [if_pos hhead]
              exact fun h0 => hlast ⟨hhead, h0⟩
            · rw [if_neg hhead]
              exact fun h0 => hne (hlist.head_eq_zero_iff.1 h0)
          rw [if_neg hlast]
          exact ⟨fun _ => hnil, fun _ => hbit.2 hne⟩
      · rw [List.erase_of_not_mem (hother k hkl)]
        by_cases hlast : s.freelist l = x ∧ n = 0
        · rw [if_pos hlast, testBit_clear hk32]
          simp [hbit, Ne.symm hkl]
        · rw [if_neg hlast]
          exact hbit
    · show (if s.freelist l = x ∧ n = 0 then _ else s.freeBitmap) < 2 ^ 32
      split
      · exact Nat.and_le_left.trans_lt h.bitmap_lt
      · exact h.bitmap_lt
    · exact fun k => (h.nodup k).erase x
    · exact fun k y hy => h.aligned k y (List.mem_of_mem_erase hy)
    · exact fun k y hy => h.pos k y (List.mem_of_mem_erase hy)
    · exact fun k j y hy hy' =>
        h.level_unique k j y (List.mem_of_mem_erase hy) (List.mem_of_mem_erase hy')
    · intro a ha
      have hax := ha l x hx
      have hap : ¬(p ≠ 0 ∧ a = p + 20) := by
        rintro ⟨h0, rfl⟩
        exact (ha l p (hpvmem.resolve_left h0)).2 rfl
      have han : ¬(n ≠ 0 ∧ a = n + 16) := by
        rintro ⟨h0, rfl⟩
        exact (ha l n (hnxmem h0)).1 rfl
      show unlinkWords s.mem x n p a = s.mem a
      unfold unlinkWords
      rw [if_neg (by tauto), if_neg hap, if_neg han]

@[simp] theorem kMmFreelistInsert_fixPool (cfg : MmConfig) (s : MmHead) (x : ℕ) :
    (kMmFreelistInsert cfg s x).fixPool = s.fixPool := by
  unfold kMmFreelistInsert
  split
  · rfl
  · split <;> rfl

@[simp] theorem kMmFreelistInsert_pool (cfg : MmConfig) (s : MmHead) (x : ℕ) :
    (kMmFreelistInsert cfg s x).pool = s.pool := by
  unfold kMmFreelistInsert
  split
  · rfl
  · split <;> rfl

/-- Filing `x`, a block of `size` bytes, first in its level. -/
def fileBlk (cfg : MmConfig) (fl : ℕ → List ℕ) (x size : ℕ) : ℕ → List ℕ := fun k =>
  if sizeToLevel cfg size = some k then x :: fl k else fl k

/-- A block that is filed is in the list of its level. -/
theorem mem_fileBlk {cfg : MmConfig} {fl : ℕ → List ℕ} {x size k y : ℕ} :
    y ∈ fileBlk cfg fl x size k ↔ (y = x ∧ sizeToLevel cfg size = some k) ∨ y ∈ fl k := by
  unfold fileBlk
  by_cases h : sizeToLevel cfg size = some k
  · simp [h]
  · simp [h]

/-- `k_mm_freelist_insert` files a block that is in no list. -/
theorem FreelistsOk.insert {cfg : MmConfig} {s : MmHead} {fl : ℕ → List ℕ} {x : ℕ}
    (h : FreelistsOk cfg s fl) (hnew : ∀ l, x ∉ fl l) (hal : x % 8 = 0) (h0 : x ≠ 0) :
    FreelistsOk cfg (kMmFreelistInsert cfg s x) (fileBlk cfg fl x (mmGetBufSize s.mem x)) ∧
      ∀ a, NoLink fl a → a ≠ x + 16 → a ≠ x + 20 →
        (kMmFreelistInsert cfg s x).mem a = s.mem a := by
  cases hlev : sizeToLevel cfg (mmGetBufSize s.mem x) with
  | none =>
    have hsame : kMmFreelistInsert cfg s x = s := by
      unfold kMmFreelistInsert
      rw [hlev]
    have hfile : fileBlk cfg fl x (mmGetBufSize s.mem x) = fl := by
      funext k
      simp [fileBlk, hlev]
    rw [hsame, hfile]
    exact ⟨h, fun _ _ _ _ => rfl⟩
  | some l =>
    have hlt := sizeToLevel_lt hlev
    have hlist := h.list l hlt
    have hheadmem : s.freelist l ≠ 0 → s.freelist l ∈ fl l := by
      intro hh
      rw [hlist.head_eq] at hh ⊢
      cases hfl : fl l with
      | nil => simp [hfl] at hh
      | cons y ys => simp
    have hheadal : s.freelist l % 8 = 0 := by
      by_cases hh : s.freelist l = 0
      · rw [hh]
      · exact h.aligned l _ (hheadmem hh)
    have hheadx : s.freelist l ≠ x := by
      intro he
      exact hnew l (he ▸ hheadmem (he ▸ h0))
    generalize hhd : s.freelist l = hd at *
    have heq : kMmFreelistInsert cfg s x =
        { s with
          mem := fun a =>
            if hd ≠ 0 ∧ a = hd + 16 then x
            else if a = x + 20 then hd else if a = x + 16 then 0 else s.mem a
          freelist := setAt s.freelist l x
          freeBitmap := s.freeBitmap ||| 2 ^ l } := by
      unfold kMmFreelistInsert
      rw [hlev]
      simp only
      rw [if_neg (by omega), hhd]
      congr 1
      funext a
      by_cases hd0 : hd = 0
      · simp [hd0, setWord]
      · simp [hd0, setWord]
    rw [heq]
    refine ⟨⟨?_, ?_, ?_, ?_, ?_, ?_, ?_⟩, ?_⟩
    · intro k hk
      by_cases hkl : k = l
      · subst hkl
        have hfile : fileBlk cfg fl x (mmGetBufSize s.mem x) k = x :: fl k := by
          simp [fileBlk, hlev]
        rw [hfile]
        simp only [setAt, if_true]
        apply hlist.push h0 _ _ _ _ (h.nodup k)
        · rw [if_neg (by omega), if_pos rfl]
        · rw [if_neg (by omega), if_neg (by omega), if_pos rfl]
        · intro y hy
          have := h.aligned k y hy
          rw [if_neg (by omega), if_neg (fun e => hnew k (by rwa [show x = y by omega])),
            if_neg (by omega)]
        · intro y hy
          have hy0 := h.pos k y hy
          have hyx : y ≠ x := fun e => hnew k (e ▸ hy)
          have := h.aligned k y hy
          by_cases hyh : y = hd
          · rw [if_pos ⟨by omega, by omega⟩, if_pos hyh]
          · rw [if_neg (by omega), if_neg (by omega), if_neg (by omega), if_neg hyh]
      · have hfile : fileBlk cfg fl x (mmGetBufSize s.mem x) k = fl k := by
          simp [fileBlk, hlev, Ne.symm hkl]
        rw [hfile]
        simp only [setAt, if_neg hkl]
        apply (h.list k hk).congr
        · intro y hy
          have := h.aligned k y hy
          have hyx : y ≠ x := fun e => hnew k (e ▸ hy)
          rw [if_neg (by omega), if_neg (by omega), if_neg (by omega)]
        · intro y hy
          have := h.aligned k y hy
          have hyx : y ≠ x := fun e => hnew k (e ▸ hy)
          have hyh : ¬(hd ≠ 0 ∧ y + 16 = hd + 16) := by
            rintro ⟨hd0, he⟩
            obtain rfl : y = hd := by omega
            exact hkl (h.level_unique k l y hy (hheadmem hd0))
          rw [if_neg hyh, if_neg (by omega), if_neg (by omega)]
    · intro k hk
      show (s.freeBitmap ||| 2 ^ l).testBit k = true ↔ _
      rw [Nat.testBit_or, Nat.testBit_two_pow]
      by_cases hkl : l = k
      · simp [fileBlk, hlev, hkl]
      · have := h.bit k hk
        simp [fileBlk, hlev, hkl, this]
    · have : l < 32 := by
        have := cfg.maxBit_le
        simp only [MmConfig.bitLevel, mmMinBit] at hlt
        omega
      exact Nat.or_lt_two_pow h.bitmap_lt (Nat.pow_lt_pow_right (by norm_num) this)
    · intro k
      unfold fileBlk
      split
      · exact List.nodup_cons.2 ⟨hnew k, h.nodup k⟩
      · exact h.nodup k
    · intro k y hy
      rcases mem_fileBlk.1 hy with ⟨rfl, -⟩ | hy
      · exact hal
      · exact h.aligned k y hy
    · intro k y hy
      rcases mem_fileBlk.1 hy with ⟨rfl, -⟩ | hy
      · exact h0
      · exact h.pos k y hy
    · intro k j y hk hj
      rcases mem_fileBlk.1 hk with ⟨rfl, hk'⟩ | hk'
      · rcases mem_fileBlk.1 hj with ⟨-, hj'⟩ | hj'
        · exact Option.some.inj (hk'.symm.trans hj')
        · exact absurd hj' (hnew j)
      · rcases mem_fileBlk.1 hj with ⟨rfl, -⟩ | hj'
        · exact absurd hk' (hnew k)
        · exact h.level_unique k j y hk' hj'
    · intro a ha h16 h20
      have hah : ¬(hd ≠ 0 ∧ a = hd + 16) := by
        rintro ⟨hd0, rfl⟩
        exact (ha l hd (hheadmem hd0)).1 rfl
      show (if hd ≠ 0 ∧ a = hd + 16 then x else _) = s.mem a
      rw [if_neg hah, if_neg h20, if_neg h16]

/-! ## Searching -/

/-- The search of one list stops at the first block large enough. -/
theorem findInLevel_spec {m : Words} {p h fuel : ℕ} {xs : List ℕ} {pv : ℕ → ℕ} (size : ℕ)
    (hl : DList (fun x => m (x + 20)) pv p h xs) (hfuel : xs.length < fuel) :
    ∃ b, findInLevel m size fuel h = some b ∧
      ((b = 0 ∧ ∀ y ∈ xs, mmGetBufSize m y < size) ∨ (b ∈ xs ∧ size ≤ mmGetBufSize m b)) := by
  induction xs generalizing p h fuel with
  | nil =>
    obtain ⟨fuel, rfl⟩ : ∃ k, fuel = k + 1 := ⟨fuel - 1, by simp at hfuel; omega⟩
    obtain rfl : h = 0 := hl
    exact ⟨0, by simp [findInLevel], .inl ⟨rfl, by simp⟩⟩
  | cons y ys ih =>
    obtain ⟨fuel, rfl⟩ : ∃ k, fuel = k + 1 := ⟨fuel - 1, by simp at hfuel; omega⟩
    obtain ⟨rfl, hy0, -, hrest⟩ := hl
    unfold findInLevel
    rw [if_neg hy0]
    by_cases hsz : size ≤ mmGetBufSize m h
    · rw [if_pos hsz]
      exact ⟨h, rfl, .inr ⟨by simp, hsz⟩⟩
    · rw [if_neg hsz]
      obtain ⟨b, hb, hcase⟩ := ih hrest (by simp at hfuel; omega)
      refine ⟨b, hb, ?_⟩
      rcases hcase with ⟨h0, hall⟩ | ⟨hmem, hge⟩
      · left
        refine ⟨h0, ?_⟩
        intro z hz
        rcases List.mem_cons.1 hz with rfl | hz
        · omega
        · exact hall z hz
      · exact .inr ⟨List.mem_cons_of_mem _ hmem, hge⟩

/-- `find_up_level` yields a filed block of a higher level if there is any. -/
theorem FreelistsOk.findUpLevel {cfg : MmConfig} {s : MmHead} {fl : ℕ → List ℕ}
    (h : FreelistsOk cfg s fl) (level : ℕ) :
    (findUpLevel cfg s level = 0 ∧ ∀ k, level < k → k < cfg.bitLevel → fl k = []) ∨
      ∃ k, level < k ∧ k < cfg.bitLevel ∧ findUpLevel cfg s level ∈ fl k := by
  unfold Model.findUpLevel
  simp only
  generalize hbm : s.freeBitmap &&& (0xFFFFFFFF <<< (level + 1)) = bm
  have hbmlt : bm < 2 ^ 32 := hbm ▸ Nat.and_le_left.trans_lt h.bitmap_lt
  have hlev : cfg.bitLevel ≤ 26 := by
    have := cfg.maxBit_le
    simp only [MmConfig.bitLevel, mmMinBit]
    omega
  have hbit : ∀ k < 32, bm.testBit k = (s.freeBitmap.testBit k && decide (level < k)) := by
    intro k hk
    rw [← hbm, Nat.testBit_and, Nat.testBit_shiftLeft, show 0xFFFFFFFF = 2 ^ 32 - 1 by norm_num,
      Nat.testBit_two_pow_sub_one]
    by_cases hlk : level < k
    · simp [hlk, show level + 1 ≤ k by omega, show k - (level + 1) < 32 by omega]
    · simp [hlk, show ¬(level + 1 ≤ k) by omega]
  have hempty : ∀ k, level < k → k < cfg.bitLevel → bm.testBit k = false → fl k = [] := by
    intro k hk hkl hb
    rw [hbit k (by omega)] at hb
    by_contra hne
    have := (h.bit k hkl).2 hne
    simp [this, hk] at hb
  by_cases h0 : bm = 0
  · left
    have hctz : krhinoCtz32 bm = 32 := by simp [krhinoCtz32, h0]
    rw [hctz, if_neg (by omega)]
    refine ⟨rfl, fun k hk hkl => hempty k hk hkl ?_⟩
    simp [h0]
  · obtain ⟨y, hy, hodd⟩ := krhinoCtz32_spec (Nat.pos_of_ne_zero h0) hbmlt
    generalize krhinoCtz32 bm = c at *
    have hset : ∀ k, bm.testBit k = (decide (c ≤ k) && y.testBit (k - c)) := by
      intro k
      rw [hy, Nat.testBit_mul_two_pow]
    by_cases hc : c < cfg.bitLevel
    · rw [if_pos hc]
      right
      have hbc : bm.testBit c = true := by
        rw [hset]
        simp [hodd]
      rw [hbit c (by omega)] at hbc
      simp only [Bool.and_eq_true, decide_eq_true_eq] at hbc
      refine ⟨c, hbc.2, hc, ?_⟩
      have hne := (h.bit c hc).1 hbc.1
      rw [(h.list c hc).head_eq]
      cases hfl : fl c with
      | nil => exact absurd hfl hne
      | cons z zs => simp
    · rw [if_neg hc]
      left
      refine ⟨rfl, fun k hk hkl => hempty k hk hkl ?_⟩
      rw [hset]
      simp [show ¬(c ≤ k) by omega]

/-- A list of distinct nonzero addresses is shorter than the address space. -/
theorem length_lt_sizeRange {xs : List ℕ} (hnd : xs.Nodup) (hpos : ∀ x ∈ xs, x ≠ 0)
    (hlt : ∀ x ∈ xs, x < sizeRange) : xs.length < sizeRange := by
  have hsub : xs.toFinset ⊆ (Finset.range sizeRange).erase 0 := by
    intro x hx
    rw [List.mem_toFinset] at hx
    simp [hpos x hx, hlt x hx]
  have hcard := Finset.card_le_card hsub
  have hr := sizeRange_eq
  rw [List.toFinset_card_of_nodup hnd, Finset.card_erase_of_mem (by simp [hr]),
    Finset.card_range] at hcard
  omega

/-- **The search returns** a filed block of at least `size` bytes, or none if no filed block of
the level or above is that large. -/
theorem FreelistsOk.findFreeBlk {cfg : MmConfig} {s : MmHead} {fl : ℕ → List ℕ}
    (h : FreelistsOk cfg s fl) {level size : ℕ} (hlevel : sizeToLevel cfg size = some level)
    (hsize : size < 2 ^ 32) (haddr : ∀ l, ∀ x ∈ fl l, x < sizeRange)
    (hfiled : ∀ l, ∀ x ∈ fl l, sizeToLevel cfg (mmGetBufSize s.mem x) = some l)
    (hpos : ∀ l, ∀ x ∈ fl l, 0 < mmGetBufSize s.mem x ∧ mmGetBufSize s.mem x < 2 ^ 32) :
    ∃ b, findFreeBlk cfg s level size = some b ∧
      ((b = 0 ∧ ∀ k, level ≤ k → ∀ x ∈ fl k, mmGetBufSize s.mem x < size) ∨
        ∃ k, b ∈ fl k ∧ size ≤ mmGetBufSize s.mem b) := by
  have hlt := sizeToLevel_lt hlevel
  obtain ⟨b, hb, hbcase⟩ := findInLevel_spec size (h.list level hlt)
    (length_lt_sizeRange (h.nodup level) (h.pos level) (haddr level))
  have hup : (Model.findUpLevel cfg s level = 0 ∧ ∀ k, level < k → fl k = []) ∨
      ∃ k, Model.findUpLevel cfg s level ∈ fl k ∧
        size ≤ mmGetBufSize s.mem (Model.findUpLevel cfg s level) := by
    rcases h.findUpLevel level with ⟨h0, hnone⟩ | ⟨k, hk, -, hmem⟩
    · refine .inl ⟨h0, fun k hk => ?_⟩
      by_contra hne
      obtain ⟨x, hx⟩ := List.exists_mem_of_ne_nil _ hne
      exact hne (hnone k hk (sizeToLevel_lt (hfiled k x hx)))
    · obtain ⟨hp, hlt32⟩ := hpos k _ hmem
      exact .inr ⟨k, hmem, (lt_of_sizeToLevel_lt hlevel (hfiled k _ hmem) hk hp hsize hlt32).le⟩
  -- both orders fail only when the level's own list and all higher lists fail
  have hboth : b = 0 → (∀ y ∈ fl level, mmGetBufSize s.mem y < size) →
      Model.findUpLevel cfg s level = 0 → (∀ k, level < k → fl k = []) →
      ∀ k, level ≤ k → ∀ x ∈ fl k, mmGetBufSize s.mem x < size := by
    intro _ hsame _ hnone k hk x hx
    rcases Nat.lt_or_eq_of_le hk with hk | rfl
    · rw [hnone k hk] at hx
      cases hx
    · exact hsame x hx
  unfold Model.findFreeBlk
  by_cases hq : cfg.quick = true
  · rw [if_pos hq]
    simp only
    by_cases hz : Model.findUpLevel cfg s level = 0
    · rw [if_pos hz]
      refine ⟨b, hb, ?_⟩
      rcases hbcase with ⟨h0, hsame⟩ | ⟨hmem, hge⟩
      · rcases hup with ⟨-, hnone⟩ | ⟨k, hmem, -⟩
        · exact .inl ⟨h0, hboth h0 hsame hz hnone⟩
        · exact absurd hz (h.pos k _ hmem)
      · exact .inr ⟨level, hmem, hge⟩
    · rw [if_neg hz]
      obtain ⟨k, hmem, hge⟩ := hup.resolve_left (fun hc => hz hc.1)
      exact ⟨_, rfl, .inr ⟨k, hmem, hge⟩⟩
  · rw [if_neg hq, hb]
    simp only
    rcases hbcase with ⟨rfl, hsame⟩ | ⟨hmem, hge⟩
    · rw [if_pos rfl]
      refine ⟨_, rfl, ?_⟩
      rcases hup with ⟨hz, hnone⟩ | ⟨k, hmem, hge⟩
      · exact .inl ⟨hz, hboth rfl hsame hz hnone⟩
      · exact .inr ⟨k, hmem, hge⟩
    · rw [if_neg (h.pos level b hmem)]
      exact ⟨b, rfl, .inr ⟨level, hmem, hge⟩⟩

end GenieSdk.Analysis
