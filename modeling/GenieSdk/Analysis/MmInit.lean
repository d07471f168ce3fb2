import GenieSdk.Analysis.MmPool

/-!
# Setting up the heap

`init_mm_region` writes the three blocks of a fresh region; freeing the middle one files it and
completes the layout. `krhino_init_mm_head` does so for the first region and then carves the
fixed pool out of it, `krhino_add_mm_region` for every further one.
-/

set_option autoImplicit false

namespace GenieSdk.Analysis

open GenieSdk.Lib GenieSdk.Model

/-- The words of a fresh region just before its middle block is freed. The end block already
says that the block before it is free. -/
structure FreshRegion (m : Words) (r : Region) : Prop where
  first_dye : m r.start = mmCorruptDye
  first_word : m (r.start + 12) = 8
  end_word : m (r.start + 16) = r.stop - 16
  mid_dye : m (r.start + 24) = mmCorruptDye
  mid_word : m (r.start + 24 + 12) = r.stop - r.start - 56
  last_dye : m (r.stop - 16) = mmCorruptDye
  last_word : m (r.stop - 16 + 12) = 2

/-- The free block of a fresh region. -/
def Region.mid (r : Region) : Blk := ⟨r.start + 24, r.stop - r.start - 56, true⟩

section Fresh

variable {cfg : MmConfig} {s t : MmHead} {A : HeapBlks} {fl : ℕ → List ℕ} {r : Region}

/-- Blocks of other regions lie outside the new one. -/
theorem HeapRep.apart_blk (h : HeapRep cfg s A fl) (hwf : r.Wf)
    (hap : ∀ p ∈ A, r.hi ≤ p.1.lo ∨ p.1.hi ≤ r.lo) {b : Blk} (hb : b ∈ allBlks A) :
    b.next ≤ r.start ∨ r.stop ≤ b.addr := by
  obtain ⟨p, hp, hbp⟩ := mem_allBlks.1 hb
  have hok := h.layout.region p hp
  have hbb := hok.mem_bounds hbp
  have h1 := hok.wf.lo_le
  have h2 := hok.wf.stop_le
  have h3 := hwf.lo_le
  have h4 := hwf.stop_le
  rcases hap p hp with hd | hd
  · exact .inr (by omega)
  · exact .inl (by omega)

/-- **Freeing the middle block of a fresh region** adds the region to the heap. -/
theorem HeapRep.freeFresh (h : HeapRep cfg s A fl) (hwf : r.Wf)
    (hap : ∀ p ∈ A, r.hi ≤ p.1.lo ∨ p.1.hi ≤ r.lo) (hfresh : FreshRegion t.mem r)
    (hout : ∀ a, a < r.start ∨ r.stop ≤ a → t.mem a = s.mem a)
    (hlist : t.freelist = s.freelist) (hbit : t.freeBitmap = s.freeBitmap)
    (hcheck : krhinoMblkCheck t (r.start + 24 + 16) = false) :
    ∃ t' fl', kMmFree cfg t (r.start + 24 + 16) = some t' ∧
      HeapRep cfg t' ((r, [r.mid]) :: A) fl' ∧
      (∀ a, NoLink fl a → a < r.start ∨ r.stop ≤ a → t'.mem a = s.mem a) ∧
      t'.fixPool = t.fixPool ∧ t'.pool = t.pool := by
  have hroom := hwf.room
  have hsal := hwf.start_al
  have htal := hwf.stop_al
  have hhi := hwf.stop_le
  have hle := hwf.hi_le
  have hlo := hwf.lo_le
  have hpos := hwf.lo_pos
  have hr := sizeRange_eq
  obtain ⟨mid, hmid⟩ : ∃ b : ℕ, b = r.start + 24 := ⟨_, rfl⟩
  obtain ⟨sz, hsz⟩ : ∃ b : ℕ, b = r.stop - r.start - 56 := ⟨_, rfl⟩
  obtain ⟨last, hlast⟩ : ∃ b : ℕ, b = r.stop - 16 := ⟨_, rfl⟩
  obtain ⟨f1, f2, f3, f4, f5, f6, f7⟩ := hfresh
  rw [← hmid] at f4 f5 hcheck ⊢
  rw [← hsz] at f5
  rw [← hlast] at f3 f6 f7
  have hfiled : ∀ l y, y ∈ fl l → y + 24 ≤ r.start ∨ r.stop ≤ y := by
    intro l y hy
    obtain ⟨b, hb, rfl, -, -⟩ := (h.filed l y).1 hy
    have hmin := h.min_size hb
    have hnext : b.next = b.addr + 16 + b.size := rfl
    rcases h.apart_blk hwf hap (mem_allBlks_of_mem_userBlks hb) with hd | hd
    · exact .inl (by omega)
    · exact .inr hd
  have hnolink : ∀ a, r.start ≤ a → a < r.stop → NoLink fl a := by
    intro a h1 h2 l y hy
    have := hfiled l y hy
    omega
  -- the lists of the heap so far
  have hl₀ : FreelistsOk cfg t fl := by
    refine h.lists.congr hlist hbit ?_
    intro l y hy
    have := hfiled l y hy
    exact ⟨hout _ (by omega), hout _ (by omega)⟩
  obtain ⟨m₁, hm₁⟩ : ∃ m : Words, m = setWord (setWord (setWord t.mem mid mmFreeDye)
    (mid + 4) 0) (mid + 12) (sz + 1) := ⟨_, rfl⟩
  have hl₁ : FreelistsOk cfg { t with mem := m₁ } fl := by
    rw [hm₁]
    have k0 := hnolink mid (by omega) (by omega)
    have k4 := hnolink (mid + 4) (by omega) (by omega)
    have k12 := hnolink (mid + 12) (by omega) (by omega)
    exact ((hl₀.write k0 _).write k4 _).write k12 _
  have hw12 : m₁ (mid + 12) = sz + 1 := by rw [hm₁, setWord_same]
  have hbuf : mmGetBufSize m₁ mid = sz := by
    unfold mmGetBufSize
    rw [hw12]
    omega
  have hnext : mmGetNextBlk m₁ mid = last := by
    unfold mmGetNextBlk
    rw [hbuf, addSize_eq (by simp only [mmlistHeadSize]; omega)]
    simp only [mmlistHeadSize]
    omega
  have hlast12 : m₁ (last + 12) = 2 := by
    rw [hm₁]
    simp (disch := omega) only [setWord_ne]
    exact f7
  have hlast0 : m₁ last = mmCorruptDye := by
    rw [hm₁]
    simp (disch := omega) only [setWord_ne]
    exact f6
  obtain ⟨t₁, ht₁⟩ : ∃ t₁, t₁ = Model.removesize { t with mem := m₁ } (mmGetBlkSize m₁ mid) := ⟨_, rfl⟩
  have ht₁m : t₁.mem = m₁ := by rw [ht₁]; rfl
  have hl₁' : FreelistsOk cfg t₁ fl := by rw [ht₁]; exact hl₁.removesize _
  obtain ⟨hl₂, hm₂⟩ := hl₁'.insert (x := mid)
    (fun l hc => by have := hfiled l mid hc; omega) (by omega) (by omega)
  rw [ht₁m, hbuf] at hl₂
  rw [ht₁m] at hm₂
  have hfix₂ := kMmFreelistInsert_fixPool cfg t₁ mid
  have hpool₂ := kMmFreelistInsert_pool cfg t₁ mid
  have hfree : kMmFree cfg t (mid + 16) = kMmFileFree cfg t₁ mid := by
    unfold kMmFree
    rw [if_neg (by omega), if_neg (by simp [hcheck])]
    simp only [mmGetThisBlk_payload, f4]
    rw [if_neg (by decide), if_neg (by simp)]
    have hset : mmSetFree sz = sz + 1 := by
      unfold mmSetFree
      omega
    have hw : setWord (setWord t.mem mid mmFreeDye) (mid + 4) 0 (mid + 12) = sz := by
      simp (disch := omega) only [setWord_ne]
      exact f5
    simp only [hw, hset, ← hm₁, ← ht₁]
    have hmn : kMmMergeNext cfg t₁ mid = t₁ := by
      unfold kMmMergeNext
      simp only [ht₁m, hnext, hlast12]
      rfl
    have hmp : kMmMergePrev cfg t₁ mid = some (mid, t₁) := by
      unfold kMmMergePrev
      have hpf : mmIsPrevFree (sz + 1) = false := by
        unfold mmIsPrevFree
        simp only [decide_eq_false_iff_not]
        omega
      rw [ht₁m, hw12, hpf]
      rfl
    rw [hmn, hmp]
  generalize ht₂ : kMmFreelistInsert cfg t₁ mid = t₂ at *
  have hin : ∀ a, r.start ≤ a ∧ a < r.stop ∧ a ≠ mid + 16 ∧ a ≠ mid + 20 → t₂.mem a = m₁ a :=
    fun a ha => hm₂ a (hnolink a ha.1 ha.2.1) ha.2.2.1 ha.2.2.2
  obtain ⟨M, hM⟩ : ∃ m : Words, m = setWord (setWord t₂.mem (last + 8) mid) (last + 12) 2 := ⟨_, rfl⟩
  have hfile : kMmFileFree cfg t₁ mid = some { t₂ with mem := M } := by
    unfold kMmFileFree
    have hnx : mmGetNextBlk t₂.mem mid = last := by
      unfold mmGetNextBlk mmGetBufSize at hnext ⊢
      rw [hin _ (by omega)]
      exact hnext
    have hd : t₂.mem last = mmCorruptDye := by
      rw [hin _ (by omega), hlast0]
    have hw : setWord t₂.mem (last + 8) mid (last + 12) = 2 := by
      simp (disch := omega) only [setWord_ne]
      rw [hin _ (by omega), hlast12]
    simp only [ht₂, hnx, hd]
    rw [if_neg (by simp), hw, hM]
    rfl
  refine ⟨_, fileBlk cfg fl mid sz, hfree.trans hfile, ?_, ?_, ?_, ?_⟩
  · have hMin : ∀ a, (r.start ≤ a ∧ a < r.stop ∧ a ≠ mid + 16 ∧ a ≠ mid + 20) ∧ a ≠ last + 8 ∧ a ≠ last + 12 →
        M a = m₁ a := by
      rintro a ⟨ha, h8, h12⟩
      rw [hM]
      simp (disch := omega) only [setWord_ne]
      exact hin a ha
    have hMt : ∀ a, ((r.start ≤ a ∧ a < r.stop ∧ a ≠ mid + 16 ∧ a ≠ mid + 20) ∧ a ≠ last + 8 ∧ a ≠ last + 12) ∧
        a ≠ mid ∧ a ≠ mid + 4 ∧ a ≠ mid + 12 → M a = t.mem a := by
      rintro a ⟨ha, h0, h4, h12⟩
      rw [hMin a ha, hm₁]
      simp (disch := omega) only [setWord_ne]
    have hMout : ∀ a, NoLink fl a → a < r.start ∨ r.stop ≤ a → M a = s.mem a := by
      intro a ha ho
      rw [hM]
      simp (disch := omega) only [setWord_ne]
      rw [hm₂ a ha (by omega) (by omega), hm₁]
      simp (disch := omega) only [setWord_ne]
      exact hout a ho
    have hfa : r.first.addr = r.start := rfl
    have hma : r.mid.addr = mid := hmid.symm
    have hms : r.mid.size = sz := hsz.symm
    have hla : r.last.addr = last := hlast.symm
    have hregion : RegionOk M r [r.mid] := by
      refine ⟨hwf, ⟨⟨rfl, ?_, (by intro hc; cases hc), ?_, fun _ => rfl,
          show 8 % 8 = 0 from rfl, (by intro hc; cases hc)⟩,
        ⟨rfl, ?_, (by intro hc; cases hc), ?_, (by intro hc; cases hc), ?_, ?_⟩,
        ⟨?_, ?_, ?_, ?_, fun _ => rfl, show 0 % 8 = 0 from rfl, (by intro hc; cases hc)⟩, trivial⟩, ?_, ?_⟩
      · rw [hfa, hMt _ (by omega), f2]
        rfl
      · rw [hfa, hMt _ (by omega), f1]
        rfl
      · rw [hma, hMin _ (by omega), hw12]
        show sz + 1 = r.mid.size + 1 + 2 * 0
        omega
      · rw [hma, hMin _ (by omega), hm₁]
        simp (disch := omega) only [setWord_ne, setWord_same]
        rfl
      · omega
      · intro _
        omega
      · show r.stop - 16 = r.mid.addr + 16 + r.mid.size
        omega
      · rw [hla, hM, setWord_same]
        rfl
      · intro _
        rw [hla, hM]
        simp (disch := omega) only [setWord_ne, setWord_same]
        exact hma.symm
      · rw [hla, hMt _ (by omega), f6]
        rfl
      · intro y hy
        obtain rfl : y = r.mid := by simpa using hy
        omega
      · rw [hMt _ (by omega), f3]
        omega
    refine ⟨⟨?_, ?_⟩, ?_, ?_⟩
    · intro p hp
      rcases List.mem_cons.1 hp with rfl | hp
      · exact hregion
      · have hok := h.layout.region p hp
        have hin' : ∀ y ∈ p.1.blks p.2, y ∈ allBlks A := fun y hy => mem_allBlks.2 ⟨p, hp, hy⟩
        refine ⟨hok.wf, ?_, hok.min_size, ?_⟩
        · apply hok.laid.congr
          intro y hy o ho
          have hnx : y.next = y.addr + 16 + y.size := rfl
          apply hMout
          · exact h.noLink (hin' y hy) (by omega) (by omega) (by omega)
          · have := h.apart_blk hwf hap (hin' y hy)
            omega
        · have hf := hin' p.1.first (mem_blks.2 (.inl rfl))
          have hfn : p.1.first.next = p.1.start + 16 + 8 := rfl
          have hfa' : p.1.first.addr = p.1.start := rfl
          show M (p.1.start + 16) = p.1.stop - 16
          rw [hMout, hok.end_word]
          · exact h.noLink hf (by omega) (.inr (by omega)) (by intro hc; cases hc)
          · have := h.apart_blk hwf hap hf
            omega
    · exact List.pairwise_cons.2 ⟨fun p hp => hap p hp, h.layout.apart⟩
    · have k : ∀ a, r.start ≤ a ∧ a < r.stop ∧ a ≠ mid + 16 ∧ a ≠ mid + 20 →
          NoLink (fileBlk cfg fl mid sz) a := fun a ha =>
        noLink_fileBlk (hnolink a ha.1 ha.2.1) ha.2.2.1 ha.2.2.2
      have k8 := k (last + 8) (by omega)
      have k12 := k (last + 12) (by omega)
      rw [hM]
      exact (hl₂.write k8 _).write k12 _
    · intro l a
      rw [mem_fileBlk, h.filed]
      simp only [userBlks, List.flatMap_cons, List.mem_append, List.mem_singleton]
      constructor
      · rintro (⟨rfl, hlev⟩ | ⟨b, hb, hrest⟩)
        · exact ⟨r.mid, .inl rfl, hma, rfl, by rw [hms]; exact hlev⟩
        · exact ⟨b, .inr hb, hrest⟩
      · rintro ⟨b, rfl | hb, hba, hbf, hlev⟩
        · exact .inl ⟨by rw [← hba, hma], by rw [hms] at hlev; exact hlev⟩
        · exact .inr ⟨b, hb, hba, hbf, hlev⟩
  · intro a ha ho
    show M a = s.mem a
    rw [hM]
    simp (disch := omega) only [setWord_ne]
    rw [hm₂ a ha (by omega) (by omega), hm₁]
    simp (disch := omega) only [setWord_ne]
    exact hout a ho
  · show t₂.fixPool = t.fixPool
    rw [hfix₂, ht₁]
    rfl
  · show t₂.pool = t.pool
    rw [hpool₂, ht₁]
    rfl

end Fresh

/-! ## A fresh region -/

/-- `(addr + len) - MMLIST_HEAD_SIZE`, also for a region that ends the address space. -/
theorem lastblk_eq {a l : ℕ} (h16 : 16 ≤ a + l) (hle : a + l ≤ sizeRange) :
    subSize (addSize a l) mmlistHeadSize = a + l - 16 := by
  have hr := sizeRange_eq
  unfold addSize subSize mmlistHeadSize
  by_cases hlt : a + l < sizeRange
  · rw [if_pos hlt, if_pos h16]
  · rw [if_neg hlt, if_neg (by omega)]
    omega

/-- The words `init_mm_region` writes. SRCLINE: k_mm.c:35-74 -/
theorem initMmRegion_spec (m₀ : Words) {r : Region} (hwf : r.Wf) {m : Words}
    (hm : m = initMmRegion m₀ r.start (r.stop - r.start)) :
    mmGetNextBlk m r.start = r.start + 24 ∧ m r.start = mmCorruptDye ∧ m (r.start + 12) = 8 ∧
      m (r.start + 16) = r.stop - 16 ∧ m (r.start + 24 + 12) = r.stop - r.start - 56 ∧
      m (r.stop - 16) = mmCorruptDye ∧ m (r.stop - 16 + 12) = 2 ∧
      ∀ a, a < r.start ∨ r.stop ≤ a → m a = m₀ a := by
  have hroom := hwf.room
  have hhi := hwf.stop_le
  have hle := hwf.hi_le
  have hr := sizeRange_eq
  have hlast : subSize (addSize r.start (r.stop - r.start)) mmlistHeadSize = r.stop - 16 := by
    rw [lastblk_eq (by omega) (by omega)]
    omega
  have hmid : ∀ m' : Words, m' (r.start + 12) = 8 → mmGetNextBlk m' r.start = r.start + 24 := by
    intro m' h8
    unfold mmGetNextBlk mmGetBufSize
    rw [h8, addSize_eq (by simp only [mmlistHeadSize]; omega)]
    rfl
  have hmid₀ : mmGetNextBlk (setWord (setWord (setWord (setWord m₀ (r.start + 8) 0)
      (r.start + 12) 8) r.start mmCorruptDye) (r.start + 4) 0) r.start = r.start + 24 := by
    apply hmid
    simp (disch := omega) only [setWord_ne, setWord_same]
  have hsize : subSize (r.stop - 16) (r.start + 24 + mmlistHeadSize) = r.stop - r.start - 56 := by
    simp only [mmlistHeadSize]
    rw [subSize_eq (by omega)]
    omega
  obtain ⟨last, hl⟩ : ∃ b, b = r.stop - 16 := ⟨_, rfl⟩
  have heq : m = setWord (setWord (setWord (setWord (setWord (setWord (setWord (setWord (setWord
      (setWord (setWord (setWord (setWord m₀ (r.start + 8) 0) (r.start + 12) 8) r.start mmCorruptDye)
      (r.start + 4) 0) (r.start + 24 + 12) (r.stop - r.start - 56)) (r.start + 24 + 16) 0)
      (r.start + 24 + 20) 0) (last + 8) (r.start + 24)) (last + 12) 2) last mmCorruptDye) (last + 4) 0)
      (r.start + 16 + 4) 0) (r.start + 16) last := by
    rw [hm, initMmRegion, hl]
    simp only [hmid₀, hlast, hsize]
    rfl
  rw [← hl]
  have hword : m (r.start + 12) = 8 := by
    rw [heq]
    simp (disch := omega) only [setWord_ne, setWord_same]
  refine ⟨hmid m hword, ?_, hword, ?_, ?_, ?_, ?_, ?_⟩
  · rw [heq]
    simp (disch := omega) only [setWord_ne, setWord_same]
  · rw [heq, setWord_same]
  · rw [heq]
    simp (disch := omega) only [setWord_ne, setWord_same]
  · rw [heq]
    simp (disch := omega) only [setWord_ne, setWord_same]
  · rw [heq]
    simp (disch := omega) only [setWord_ne, setWord_same]
  · intro a ha
    rw [heq]
    simp (disch := omega) only [setWord_ne]

/-- A region is fresh once its middle block is dyed. -/
theorem initMmRegion_fresh (m₀ : Words) {r : Region} (hwf : r.Wf) {m m' : Words}
    (hm : m = initMmRegion m₀ r.start (r.stop - r.start)) (hdye : m' (r.start + 24) = mmCorruptDye)
    (hsame : ∀ a, a ≠ r.start + 20 → a ≠ r.start + 24 → a ≠ r.start + 28 → m' a = m a) :
    FreshRegion m' r := by
  have hroom := hwf.room
  obtain ⟨-, w2, w3, w4, w5, w6, w7, -⟩ := initMmRegion_spec m₀ hwf hm
  refine ⟨?_, ?_, ?_, hdye, ?_, ?_, ?_⟩
  · rw [hsame _ (by omega) (by omega) (by omega), w2]
  · rw [hsame _ (by omega) (by omega) (by omega), w3]
  · rw [hsame _ (by omega) (by omega) (by omega), w4]
  · rw [hsame _ (by omega) (by omega) (by omega), w5]
  · rw [hsame _ (by omega) (by omega) (by omega), w6]
  · rw [hsame _ (by omega) (by omega) (by omega), w7]

/-! ## The pool in its block -/

/-- The slots from `c` on. -/
def slotsFrom : ℕ → ℕ → List ℕ
  | _, 0 => []
  | c, k + 1 => c :: slotsFrom (c + 32) k

/-- The slots lie 32 bytes apart. -/
theorem mem_slotsFrom {c k p : ℕ} : p ∈ slotsFrom c k ↔ ∃ i < k, p = c + 32 * i := by
  induction k generalizing c with
  | zero => simp [slotsFrom]
  | succ k ih =>
    rw [slotsFrom, List.mem_cons, ih]
    constructor
    · rintro (rfl | ⟨i, hi, rfl⟩)
      · exact ⟨0, by omega, by omega⟩
      · exact ⟨i + 1, by omega, by omega⟩
    · rintro ⟨i, hi, rfl⟩
      cases i with
      | zero => exact .inl (by omega)
      | succ i => exact .inr ⟨i, by omega, by omega⟩

/-- All of them are different. -/
theorem nodup_slotsFrom (c k : ℕ) : (slotsFrom c k).Nodup := by
  induction k generalizing c with
  | zero => exact List.nodup_nil
  | succ k ih =>
    refine List.nodup_cons.2 ⟨?_, ih (c + 32)⟩
    intro hc
    obtain ⟨i, -, hi⟩ := mem_slotsFrom.1 hc
    omega

/-- There are as many as asked for. -/
theorem length_slotsFrom (c k : ℕ) : (slotsFrom c k).length = k := by
  induction k generalizing c with
  | zero => rfl
  | succ k ih => rw [slotsFrom, List.length_cons, ih]

/-- The linked slots are a chain; the last word does not matter. -/
theorem slotChain_slotsFrom {m : Words} {c k : ℕ}
    (h : ∀ i, i + 1 < k → m (c + 32 * i) = c + 32 * (i + 1)) : SlotChain m c (slotsFrom c k) := by
  induction k generalizing c with
  | zero => trivial
  | succ k ih =>
    refine ⟨rfl, ?_⟩
    cases k with
    | zero => trivial
    | succ k =>
      have h0 := h 0 (by omega)
      rw [show c + 32 * 0 = c by omega, show c + 32 * (0 + 1) = c + 32 by omega] at h0
      rw [h0]
      apply ih
      intro i hi
      have := h (i + 1) (by omega)
      rw [show c + 32 + 32 * i = c + 32 * (i + 1) by omega, this]
      omega

/-- **the linking loop of the pool ends** and links the `k` slots.
SRCLINE: k_mm_blk.c:46-61 -/
theorem mblkPoolLoop_spec {m : Words} {e fuel cur blks k : ℕ} (hk : 0 < k) (hfuel : k ≤ fuel)
    (he : cur + 32 * k = e) (hlt : e < sizeRange) :
    ∃ m', mblkPoolLoop m 32 e fuel cur blks = some (m', e - 32, blks + k) ∧
      (∀ i, i + 1 < k → m' (cur + 32 * i) = cur + 32 * (i + 1)) ∧
      ∀ a, a < cur ∨ e ≤ a → m' a = m a := by
  induction fuel generalizing m cur blks k with
  | zero => omega
  | succ fuel ih =>
    unfold mblkPoolLoop
    simp only [addSize_eq (show cur + 32 < sizeRange by omega)]
    by_cases hmore : cur + 32 < e
    · rw [if_pos hmore]
      obtain ⟨m', heq, hlink, hframe⟩ :=
        @ih (setWord m cur (cur + 32)) (cur + 32) (blks + 1) (k - 1) (by omega) (by omega) (by omega)
      refine ⟨m', by rw [heq]; congr 3; omega, ?_, ?_⟩
      · intro i hi
        cases i with
        | zero =>
          rw [show cur + 32 * 0 = cur by omega, hframe cur (by omega), setWord_same]
        | succ i =>
          rw [show cur + 32 * (i + 1) = cur + 32 + 32 * i by omega, hlink i (by omega)]
          omega
      · intro a ha
        rw [hframe a (by omega), setWord_ne (by omega)]
    · rw [if_neg hmore, if_pos (by omega)]
      refine ⟨m, ?_, ?_, fun _ _ => rfl⟩
      · congr 3
        · omega
        · omega
      · intro i hi
        omega

section Setup

variable {cfg : MmConfig} {s : MmHead} {A : HeapBlks} {fl : ℕ → List ℕ} {av live : List ℕ}

/-- A block of a user has another one behind it. -/
theorem HeapRep.user_next (h : HeapRep cfg s A fl) {x : Blk} (hx : x ∈ userBlks A) :
    x.next + 16 ≤ sizeRange := by
  obtain ⟨A₁, A₂, r, L, R, S, n, har⟩ := h.around hx
  have hnb := har.n_bounds
  have hna : n.addr = x.next := har.laid.2.1.addr
  omega

/-- Linking the slots in the block `P` makes the pool.
SRCLINE: k_mm_blk.c:8-79 -/
theorem MmInv.poolInit {P : Blk} (h : MmInv cfg s A fl av [P.addr + 16]) (hP : P ∈ usedBlks A)
    (start len : ℕ) (hlo : P.addr + 16 ≤ start) (hhi : start + len ≤ P.next)
    (hal : start % 8 = 0) (hdvd : len % 32 = 0) :
    krhinoMblkPoolInit s.mem start mmBlkSize len = some none ∨
      ∃ m' pool, krhinoMblkPoolInit s.mem start mmBlkSize len = some (some (m', pool)) ∧
        ∀ s' : MmHead, s'.mem = m' → s'.pool = pool → s'.fixPool = P.addr + 16 →
          s'.freelist = s.freelist → s'.freeBitmap = s.freeBitmap →
          ∃ av', MmInv cfg s' A fl av' [] := by
  have hr := sizeRange_eq
  have hnext := h.rep.user_next (mem_usedBlks.1 hP).1
  have h64 : addSize mmBlkSize mmBlkSize = 64 := addSize_eq (by rw [hr, mmBlkSize]; norm_num)
  have h4 : mmBlkSize % 4 = 0 := rfl
  unfold krhinoMblkPoolInit
  by_cases hsmall : len < addSize mmBlkSize mmBlkSize
  · exact .inl (if_pos hsmall)
  rw [if_neg hsmall, if_neg (by omega), addSize_eq (by omega)]
  obtain ⟨k, hk⟩ : ∃ k, len = 32 * k := ⟨len / 32, by omega⟩
  obtain ⟨m', heq, hlink, hframe⟩ := @mblkPoolLoop_spec s.mem (start + len) sizeRange start 0 k
    (by omega) (by omega) (by omega) (by omega)
  have heq' : mblkPoolLoop s.mem mmBlkSize (start + len) sizeRange start 0 =
    some (m', start + len - 32, 0 + k) := heq
  simp only [heq']
  refine .inr ⟨_, _, rfl, ?_⟩
  intro s' hmem hpool hfix' hlist hbit
  have hrep : HeapRep cfg { s with mem := setWord m' (start + len - 32) 0 } A fl := by
    apply h.rep.writePayload
    intro a ha
    refine ⟨P, hP, ?_, ?_⟩
    · by_contra hc
      rw [setWord_ne (by omega), hframe a (by omega)] at ha
      exact ha rfl
    · by_contra hc
      rw [setWord_ne (by omega), hframe a (by omega)] at ha
      exact ha rfl
  refine ⟨slotsFrom start k, hrep.congr_head hmem hlist hbit, ?_, List.nodup_nil, by simp, by simp⟩
  intro _
  refine ⟨P, hP, hfix', ?_, ?_, ?_, ?_, ?_, nodup_slotsFrom _ _, ?_⟩
  · rw [hpool]
    exact hlo
  · rw [hpool]
    exact hhi
  · rw [hpool]
    exact hal
  · rw [hmem, hpool]
    apply slotChain_slotsFrom
    intro i hi
    rw [setWord_ne (show start + 32 * i ≠ start + len - 32 by omega)]
    exact hlink i hi
  · rw [hpool, length_slotsFrom]
    simp
  · intro p hp
    obtain ⟨i, hi, rfl⟩ := mem_slotsFrom.1 hp
    rw [Slot, hpool]
    exact ⟨i, rfl, by simp only; omega⟩

/-- **The fixed pool of a new heap.** SRCLINE: k_mm.c:203-227 -/
theorem MmInv.initFixPool (h : MmInv cfg s A fl av []) (hfix : s.fixPool = 0) :
    ∃ s' A' fl' av', initFixPool cfg s = some s' ∧ MmInv cfg s' A' fl' av' [] ∧
      A'.map Prod.fst = A.map Prod.fst := by
  have hr := sizeRange_eq
  have htlf := cfg.tlfBlkSize_le
  have hhdr := cfg.poolHdrSize_le
  have hah : mmAlignUp cfg.poolHdrSize ≤ 128 ∧ mmAlignUp cfg.poolHdrSize % 8 = 0 := by
    unfold mmAlignUp
    rw [addSize_eq (by omega)]
    omega
  generalize hahe : mmAlignUp cfg.poolHdrSize = ah at hah
  have hsize : cfg.tlfBlkSize + ah < sizeRange := by omega
  unfold Model.initFixPool
  have halloc : kMmAlloc cfg s (cfg.tlfBlkSize + ah) = some (0, s) ∨
      kMmAlloc cfg s (cfg.tlfBlkSize + ah) = kMmTlfAlloc cfg s (cfg.tlfBlkSize + ah) := by
    unfold kMmAlloc
    by_cases h0 : cfg.tlfBlkSize + ah = 0
    · exact .inl (if_pos h0)
    · rw [if_neg h0, if_neg (by simp [hfix])]
      exact .inr rfl
  have hnull : ∃ s' A' fl' av', some s = some s' ∧ MmInv cfg s' A' fl' av' [] ∧
      A'.map Prod.fst = A.map Prod.fst := ⟨s, A, fl, av, rfl, h, rfl⟩
  rw [hahe]
  rcases halloc with h0 | htl
  · simp only [h0, if_true]
    exact hnull
  rcases h.tlfAlloc hsize with h0 | ⟨s₁, A₁, fl₁, P, heq, hinv, ht, hround, -⟩
  · simp only [htl, h0, if_true]
    exact hnull
  have hPu : P ∈ usedBlks A₁ := (ht.used P).2 (.inr (by simp))
  have hPb := hinv.rep.blk_bounds (mem_allBlks_of_mem_userBlks (mem_usedBlks.1 hPu).1)
  have hPn := hinv.rep.user_next (mem_usedBlks.1 hPu).1
  have hPnext : P.next = P.addr + 16 + P.size := rfl
  obtain ⟨-, -, -, hfit, -⟩ := roundReq_spec hsize
  have hfit' := hfit (by omega)
  have hstart : addSize (P.addr + 16) ah = P.addr + 16 + ah := addSize_eq (by omega)
  simp only [htl, heq]
  rw [if_neg (by omega), hstart]
  rcases hinv.poolInit hPu (P.addr + 16 + ah) cfg.tlfBlkSize (by omega) (by omega) (by omega)
    cfg.tlfBlkSize_dvd with hrefuse | ⟨m', pool, hinit, hpool⟩
  · rw [hrefuse]
    obtain ⟨s₂, A₂, fl₂, av₂, hfree, hinv₂, hreg, -⟩ := hinv.free (p := P.addr + 16) (by simp)
    simp only [hfree]
    refine ⟨_, A₂, fl₂, av₂, rfl, ?_, hreg.trans ht.regions⟩
    have hnil : [P.addr + 16].erase (P.addr + 16) = [] := by simp
    rw [hnil] at hinv₂
    exact hinv₂.congr_head rfl rfl rfl rfl rfl
  · rw [hinit]
    obtain ⟨t, htd⟩ : ∃ t, t = Model.removesize
      { s₁ with mem := m', fixPool := P.addr + 16, pool := pool } cfg.tlfBlkSize := ⟨_, rfl⟩
    obtain ⟨av', hinv'⟩ := hpool t (by rw [htd]; rfl) (by rw [htd]; rfl) (by rw [htd]; rfl)
      (by rw [htd]; rfl) (by rw [htd]; rfl)
    refine ⟨_, A₁, fl₁, av', rfl, ?_, ht.regions⟩
    rw [← htd]
    exact hinv'.congr_head rfl rfl rfl rfl rfl

/-! ## Adding a region -/

/-- The bytes before the first aligned address. -/
def regionGap (addr : ℕ) : ℕ := subSize (mmAlignUp addr) addr

/-- What `krhino_init_mm_head` manages of the memory handed to it: behind the head. -/
def initRegion (cfg : MmConfig) (addr len : ℕ) : Region :=
  ⟨addr, addr + len, mmAlignUp addr + mmAlignUp cfg.headSize,
    mmAlignUp addr + mmAlignDown (len - regionGap addr)⟩

/-- What `krhino_add_mm_region` manages of the memory handed to it. -/
def addedRegion (addr len : ℕ) : Region :=
  ⟨addr, addr + len, mmAlignUp addr, mmAlignUp addr + mmAlignDown (len - regionGap addr)⟩

/-- An address aligned up, with its gap. -/
theorem alignUp_spec {addr len : ℕ} (hle : addr + len ≤ sizeRange) (hgap : regionGap addr ≤ len)
    (hlong : 8 ≤ mmAlignDown (len - regionGap addr)) :
    mmAlignUp addr % 8 = 0 ∧ addr ≤ mmAlignUp addr ∧
      mmAlignUp addr + (len - regionGap addr) = addr + len := by
  have hr := sizeRange_eq
  unfold regionGap mmAlignUp mmAlignDown at *
  by_cases hw : addr + 7 < sizeRange
  · rw [addSize_eq hw] at *
    rw [subSize_eq (by omega)] at *
    omega
  · have h0 : addSize addr 7 / 8 * 8 = 0 := by
      unfold addSize
      rw [if_neg hw]
      omega
    rw [h0] at *
    unfold subSize at *
    rw [if_neg (by omega)] at *
    omega

/-- A region that is long enough loses its gap. -/
theorem addRegionLen_eq {addr len : ℕ} (hgap : regionGap addr ≤ len) :
    addRegionLen addr len = mmAlignDown (len - regionGap addr) := by
  unfold addRegionLen
  rw [← regionGap, subSize_eq hgap]

/-- An added region that is long enough is well formed. -/
theorem addedRegion_wf {addr len : ℕ} (h0 : addr ≠ 0) (hle : addr + len ≤ sizeRange)
    (hgap : regionGap addr ≤ len) (hroom : 88 ≤ mmAlignDown (len - regionGap addr)) :
    (addedRegion addr len).Wf := by
  obtain ⟨hal, hge, hend⟩ := alignUp_spec hle hgap (by omega)
  have hdown : mmAlignDown (len - regionGap addr) % 8 = 0 ∧
      mmAlignDown (len - regionGap addr) ≤ len - regionGap addr := by
    unfold mmAlignDown
    omega
  refine ⟨by show 0 < addr; omega, hge, ?_, ?_, hle, hal, ?_⟩
  · show mmAlignUp addr + 88 ≤ mmAlignUp addr + mmAlignDown (len - regionGap addr)
    omega
  · show mmAlignUp addr + mmAlignDown (len - regionGap addr) ≤ addr + len
    omega
  · show (mmAlignUp addr + mmAlignDown (len - regionGap addr)) % 8 = 0
    omega

/-- A heap with one more region, whose block is free. -/
theorem MmInv.withRegion (h : MmInv cfg s A fl av live) {r : Region} {t : MmHead} {fl' : ℕ → List ℕ}
    (hrep : HeapRep cfg t ((r, [r.mid]) :: A) fl')
    (hmem : ∀ b ∈ usedBlks A, ∀ a, b.addr + 16 ≤ a → a < b.next → t.mem a = s.mem a)
    (hfix : t.fixPool = s.fixPool) (hpool : t.pool = s.pool) :
    MmInv cfg t ((r, [r.mid]) :: A) fl' av live := by
  have hused : ∀ b ∈ usedBlks A, b ∈ usedBlks ((r, [r.mid]) :: A) := by
    intro b hb
    obtain ⟨hbu, hbf⟩ := mem_usedBlks.1 hb
    exact mem_usedBlks.2 ⟨by simp only [userBlks, List.flatMap_cons, List.mem_append]; exact .inr hbu,
      hbf⟩
  have hcheck : ∀ p, krhinoMblkCheck t p = krhinoMblkCheck s p := by
    intro p
    simp [krhinoMblkCheck, hfix, hpool]
  have hslot : ∀ p, Slot t p = Slot s p := by
    intro p
    rw [Slot, Slot, hpool]
  refine ⟨hrep, ?_, h.live_nodup, ?_, ?_⟩
  · intro hne
    obtain ⟨P, hP⟩ := h.pool (by rwa [← hfix])
    have hPs := hP.start_le
    have hPe := hP.end_le
    refine ⟨P, hused P hP.blk, hfix.trans hP.fixPool, ?_, ?_, ?_, ?_, ?_, hP.nodup, ?_⟩
    · rw [hpool]
      exact hPs
    · rw [hpool]
      exact hPe
    · rw [hpool]
      exact hP.start_al
    · rw [hpool]
      apply hP.chain.congr
      intro p hp
      obtain ⟨i, hi, hle⟩ := hP.slot p hp
      exact hmem P hP.blk p (by omega) (by omega)
    · rw [hpool]
      exact hP.avail
    · intro p hp
      rw [hslot]
      exact hP.slot p hp
  · intro p hp hc
    rw [hcheck] at hc
    obtain ⟨x, hx, hpx, hne⟩ := h.live_blk p hp hc
    rw [hfix]
    exact ⟨x, hused x hx, hpx, hne⟩
  · intro p hp hc
    rw [hcheck] at hc
    rw [hslot]
    exact h.live_slot p hp hc

/-- What lies outside is not cleared. -/
theorem zeroWords_out {m : Words} {addr len a : ℕ} (hle : addr + len ≤ sizeRange)
    (ha : a < addr ∨ addr + len ≤ a) : zeroWords m addr len a = m a := by
  unfold zeroWords subSize
  apply if_neg
  split
  · omega
  · omega

/-- A `memset` away from the head clears the memory only. -/
theorem zeroHeap_out {s : MmHead} {mmhead addr len : ℕ} (hle : addr + len ≤ sizeRange)
    (h : mmhead < addr ∨ addr + len ≤ mmhead) :
    zeroHeap s mmhead addr len = { s with mem := zeroWords s.mem addr len } := by
  unfold zeroHeap subSize
  apply if_neg
  split
  · omega
  · omega

/-- **`krhino_add_mm_region` returns**: refused, or with one more region.
SRCLINE: k_mm.c:244-286 -/
theorem MmInv.addRegion (h : MmInv cfg s A fl av live) {addr len : ℕ}
    (hle : addr + len ≤ sizeRange) (hap : ∀ p ∈ A, addr + len ≤ p.1.lo ∨ p.1.hi ≤ addr)
    (hgap : regionGap addr ≤ len) {mmhead : ℕ} (hhead : mmhead < addr ∨ addr + len ≤ mmhead) :
    (∃ st, st ≠ KStat.success ∧ krhinoAddMmRegion cfg mmhead s addr len = some (st, s)) ∨
      ∃ s' fl', krhinoAddMmRegion cfg mmhead s addr len = some (.success, s') ∧
        MmInv cfg s' ((addedRegion addr len, [(addedRegion addr len).mid]) :: A) fl' av live ∧
        s'.fixPool = s.fixPool := by
  unfold krhinoAddMmRegion
  by_cases h0 : mmhead = 0 ∨ addr = 0
  · rw [if_pos h0]
    exact .inl ⟨.nullPtr, by simp, rfl⟩
  rw [if_neg h0]
  replace h0 : addr ≠ 0 := fun hc => h0 (.inr hc)
  simp only [addRegionLen_eq hgap]
  by_cases hroom : mmAlignDown (len - regionGap addr) = 0 ∨
      mmAlignDown (len - regionGap addr) < 8 + mmlistHeadSize * 3 + mmMinSize
  · rw [if_pos hroom]
    exact .inl ⟨.mmPoolSizeErr, by simp, rfl⟩
  rw [if_neg hroom]
  right
  have hwf := addedRegion_wf h0 hle hgap (by simp only [mmlistHeadSize, mmMinSize] at hroom; omega)
  have hlen : (addedRegion addr len).stop - (addedRegion addr len).start =
      mmAlignDown (len - regionGap addr) := by
    show mmAlignUp addr + mmAlignDown (len - regionGap addr) - mmAlignUp addr = _
    omega
  have hap' : ∀ p ∈ A, (addedRegion addr len).hi ≤ p.1.lo ∨ p.1.hi ≤ (addedRegion addr len).lo := hap
  have hstart : mmAlignUp addr = (addedRegion addr len).start := rfl
  have hhead' : mmhead < (addedRegion addr len).lo ∨ (addedRegion addr len).hi ≤ mmhead := hhead
  rw [hstart, ← hlen]
  generalize addedRegion addr len = r at *
  have hroom' := hwf.room
  have hlo := hwf.lo_le
  have hstop := hwf.stop_le
  have hhi := hwf.hi_le
  rw [zeroHeap_out (by omega) (by omega)]
  obtain ⟨m, hm⟩ : ∃ m, m = initMmRegion (zeroWords s.mem r.start (r.stop - r.start)) r.start
    (r.stop - r.start) := ⟨_, rfl⟩
  obtain ⟨w1, -, -, -, -, -, -, wout⟩ := initMmRegion_spec _ hwf hm
  rw [← hm, w1]
  simp only [mmlistHeadSize]
  obtain ⟨m', hm'⟩ : ∃ m' : Words, m' = setWord (setWord (setWord m (r.start + 16 + 4) s.regioninfo)
    (r.start + 24) mmCorruptDye) (r.start + 24 + 4) 0 := ⟨_, rfl⟩
  rw [← hm']
  have hfresh : FreshRegion m' r := by
    refine initMmRegion_fresh _ hwf hm ?_ ?_
    · rw [hm']
      simp (disch := omega) only [setWord_ne, setWord_same]
    · intro a h20 h24 h28
      rw [hm']
      simp (disch := omega) only [setWord_ne]
  have hout : ∀ a, a < r.start ∨ r.stop ≤ a → m' a = s.mem a := by
    intro a ha
    rw [hm']
    simp (disch := omega) only [setWord_ne]
    rw [wout a ha, zeroWords_out (by omega) (by omega)]
  obtain ⟨t, ht⟩ : ∃ t : MmHead, t = { s with
    mem := m', regioninfo := r.start + 16
    usedSize := addSize s.usedSize (mmGetBlkSize m' (r.start + 24)) } := ⟨_, rfl⟩
  rw [← ht]
  have htm : t.mem = m' := by rw [ht]
  have htf : t.fixPool = s.fixPool := by rw [ht]
  have htp : t.pool = s.pool := by rw [ht]
  have hcheck : krhinoMblkCheck t (r.start + 24 + 16) = false := by
    by_contra hc
    obtain ⟨hfix, hlo, hhi⟩ := krhinoMblkCheck_iff.1 (by simpa using hc)
    rw [htf] at hfix
    rw [htp] at hlo hhi
    obtain ⟨P, hP⟩ := h.pool hfix
    have hPs := hP.start_le
    have hPe := hP.end_le
    have := h.rep.apart_blk hwf hap' (mem_allBlks_of_mem_userBlks (mem_usedBlks.1 hP.blk).1)
    omega
  obtain ⟨t', fl', hfree, hrep, hframe, hfix, hpool⟩ := h.rep.freeFresh hwf hap' (t := t)
    (by rw [htm]; exact hfresh) (by rw [htm]; exact hout) (by rw [ht]) (by rw [ht]) hcheck
  rw [hfree]
  refine ⟨t', fl', rfl, h.withRegion hrep ?_ (hfix.trans htf) (hpool.trans htp), hfix.trans htf⟩
  intro b hb a hlo hhi'
  obtain ⟨hbu, hbf⟩ := mem_usedBlks.1 hb
  have hball := mem_allBlks_of_mem_userBlks hbu
  apply hframe
  · exact h.rep.noLink_used hball hbf (by omega) hhi'
  · have := h.rep.apart_blk hwf hap' hball
    omega

/-! ## The first region -/

/-- A heap without regions. -/
theorem HeapRep.empty {t : MmHead} (hlist : t.freelist = fun _ => 0) (hbit : t.freeBitmap = 0) :
    HeapRep cfg t [] (fun _ => []) := by
  refine ⟨⟨by simp, List.Pairwise.nil⟩, ⟨?_, ?_, ?_, by simp, by simp, by simp, by simp⟩, ?_⟩
  · intro l _
    rw [hlist]
    rfl
  · intro l _
    simp [hbit]
  · simp [hbit]
  · simp [userBlks]

/-- The length check of `krhino_init_mm_head` also catches a length that wrapped. -/
theorem regionGap_le_of_init (cfg : MmConfig) {addr len : ℕ} (hle : addr + len ≤ sizeRange)
    (hlen : len < sizeRange) (hmax : addRegionLen addr len ≤ cfg.maxSize)
    (hpos : addRegionLen addr len ≠ 0) : regionGap addr ≤ len := by
  have hr := sizeRange_eq
  have hmb : cfg.maxSize ≤ 2 ^ 30 := Nat.pow_le_pow_right (by norm_num) cfg.maxBit_le
  have hgap7 : addr < sizeRange → regionGap addr ≤ 7 := by
    intro hlt
    unfold regionGap mmAlignUp addSize
    by_cases hw : addr + 7 < sizeRange
    · rw [if_pos hw, subSize_eq (by omega)]
      omega
    · rw [if_neg hw]
      unfold subSize
      split
      · omega
      · omega
  by_contra hc
  have hlt : addr < sizeRange := by
    by_contra hge
    have hg : regionGap addr = 0 := by
      unfold regionGap mmAlignUp addSize
      rw [if_neg (by omega)]
      have : addr = sizeRange := by omega
      rw [this]
      unfold subSize
      rw [if_neg (by omega)]
      omega
    omega
  have h7 := hgap7 hlt
  unfold addRegionLen mmAlignDown at hmax
  rw [← regionGap] at hmax
  unfold subSize at hmax
  rw [if_neg hc] at hmax
  omega

/-- The first region is well formed, and the head fits into it. -/
theorem initRegion_wf (cfg : MmConfig) {addr len : ℕ} (h0 : addr ≠ 0) (hle : addr + len ≤ sizeRange)
    (hgap : regionGap addr ≤ len) (hroom : 1024 ≤ mmAlignDown (len - regionGap addr)) :
    (initRegion cfg addr len).Wf ∧ mmAlignUp cfg.headSize ≤ 896 ∧
      cfg.headSize ≤ mmAlignUp cfg.headSize ∧ mmAlignUp cfg.headSize < cfg.headSize + 8 ∧
      mmAlignUp cfg.headSize % 8 = 0 := by
  have hr := sizeRange_eq
  obtain ⟨hal, hge, hend⟩ := alignUp_spec hle hgap (by omega)
  have hhead := cfg.headSize_le
  have hup : mmAlignUp cfg.headSize ≤ 896 ∧ cfg.headSize ≤ mmAlignUp cfg.headSize ∧
      mmAlignUp cfg.headSize < cfg.headSize + 8 ∧ mmAlignUp cfg.headSize % 8 = 0 := by
    unfold mmAlignUp
    rw [addSize_eq (by omega)]
    omega
  have hdown : mmAlignDown (len - regionGap addr) % 8 = 0 ∧
      mmAlignDown (len - regionGap addr) ≤ len - regionGap addr := by
    unfold mmAlignDown
    omega
  refine ⟨⟨by show 0 < addr; omega, ?_, ?_, ?_, hle, ?_, ?_⟩, hup⟩
  · show addr ≤ mmAlignUp addr + mmAlignUp cfg.headSize
    omega
  · show mmAlignUp addr + mmAlignUp cfg.headSize + 88 ≤
      mmAlignUp addr + mmAlignDown (len - regionGap addr)
    omega
  · show mmAlignUp addr + mmAlignDown (len - regionGap addr) ≤ addr + len
    omega
  · show (mmAlignUp addr + mmAlignUp cfg.headSize) % 8 = 0
    omega
  · show (mmAlignUp addr + mmAlignDown (len - regionGap addr)) % 8 = 0
    omega

/-- **`krhino_init_mm_head` returns**: refused, or with a heap of one region.
SRCLINE: k_mm.c:136-230 -/
theorem krhinoInitMmHead_spec (mem : Words) {addr len : ℕ} (hle : addr + len ≤ sizeRange)
    (hlen : len < sizeRange) :
    (∃ e, krhinoInitMmHead cfg mem addr len = some (.error e)) ∨
      ∃ s A fl av, krhinoInitMmHead cfg mem addr len = some (.ok s) ∧ MmInv cfg s A fl av [] ∧
        A.map Prod.fst = [initRegion cfg addr len] ∧
        (initRegion cfg addr len).stop - (initRegion cfg addr len).start ≤ cfg.maxSize ∧
        (cfg.blk = false → s.fixPool = 0) := by
  unfold krhinoInitMmHead
  by_cases h0 : addr = 0
  · rw [if_pos h0]
    exact .inl ⟨_, rfl⟩
  rw [if_neg h0]
  simp only
  rw [show mmAlignDown (subSize len (subSize (mmAlignUp addr) addr)) = addRegionLen addr len from rfl]
  by_cases hbad : addRegionLen addr len = 0 ∨ addRegionLen addr len < 1024 + cfg.tlfBlkSize ∨
      cfg.maxSize < addRegionLen addr len
  · rw [if_pos hbad]
    exact .inl ⟨_, rfl⟩
  rw [if_neg hbad]
  right
  have hgap := regionGap_le_of_init cfg hle hlen (by omega) (by omega)
  rw [addRegionLen_eq hgap] at hbad ⊢
  obtain ⟨hwf, hh1, hh2, hh3, hh4⟩ := initRegion_wf cfg h0 hle hgap (by omega)
  obtain ⟨L, hL⟩ : ∃ L, L = mmAlignDown (len - regionGap addr) := ⟨_, rfl⟩
  have hL8 : L % 8 = 0 := by
    rw [hL]
    unfold mmAlignDown
    omega
  rw [← hL] at hbad ⊢
  have hstart : (initRegion cfg addr len).start = mmAlignUp addr + mmAlignUp cfg.headSize := rfl
  have hstop : (initRegion cfg addr len).stop = mmAlignUp addr + L := by
    rw [hL]
    rfl
  have hroom := hwf.room
  have hstople := hwf.stop_le
  have hhi := hwf.hi_le
  generalize initRegion cfg addr len = r at *
  have hfirst : addSize (mmAlignUp addr) (mmAlignUp cfg.headSize) = r.start := by
    rw [addSize_eq (by omega), hstart]
  have hdown : mmAlignDown (L - cfg.headSize) = r.stop - r.start := by
    unfold mmAlignDown
    omega
  rw [hfirst, hdown]
  obtain ⟨m, hm⟩ : ∃ m, m = initMmRegion mem r.start (r.stop - r.start) := ⟨_, rfl⟩
  obtain ⟨w1, -⟩ := initMmRegion_spec _ hwf hm
  rw [← hm, w1]
  obtain ⟨m', hm'⟩ : ∃ m' : Words, m' = setWord (setWord m (r.start + 24) mmCorruptDye)
    (r.start + 24 + 4) 0 := ⟨_, rfl⟩
  rw [← hm']
  have hfresh : FreshRegion m' r := by
    refine initMmRegion_fresh _ hwf hm ?_ ?_
    · rw [hm']
      simp (disch := omega) only [setWord_ne, setWord_same]
    · intro a h20 h24 h28
      rw [hm']
      simp (disch := omega) only [setWord_ne]
  obtain ⟨t, ht⟩ : ∃ t : MmHead,
      t = { zeroMmHead m' with regioninfo := r.start + mmlistHeadSize } := ⟨_, rfl⟩
  rw [← ht]
  have hempty : HeapRep cfg t [] (fun _ => []) := HeapRep.empty (by rw [ht]; rfl) (by rw [ht]; rfl)
  have htf : t.fixPool = 0 := by rw [ht]; rfl
  have hcheck : krhinoMblkCheck t (r.start + 24 + 16) = false := by
    simp [krhinoMblkCheck, htf]
  obtain ⟨t', fl', hfree, hrep, -, hfix, -⟩ := hempty.freeFresh (t := t) hwf (by simp)
    (by rw [ht]; exact hfresh) (fun _ _ => rfl) rfl rfl hcheck
  have hfix' : t'.fixPool = 0 := hfix.trans htf
  simp only [mmlistHeadSize, hfree]
  have hinv : ∀ t'' : MmHead, t''.mem = t'.mem → t''.freelist = t'.freelist →
      t''.freeBitmap = t'.freeBitmap → t''.fixPool = 0 → MmInv cfg t'' [(r, [r.mid])] fl' [] [] := by
    intro t'' h1 h2 h3 h4
    exact ⟨hrep.congr_head h1 h2 h3, fun hc => absurd h4 hc, List.nodup_nil, by simp, by simp⟩
  have hmax : r.stop - r.start ≤ cfg.maxSize := by omega
  obtain ⟨u, hu⟩ : ∃ u : MmHead, u = { t' with
    freeSize := mmGetBufSize t'.mem (r.start + 24)
    usedSize := subSize L (mmGetBufSize t'.mem (r.start + 24))
    maxusedSize := subSize L (mmGetBufSize t'.mem (r.start + 24)) } := ⟨_, rfl⟩
  rw [← hu]
  have hufix : u.fixPool = 0 := by
    rw [hu]
    exact hfix'
  have hinvu := hinv u (by rw [hu]) (by rw [hu]) (by rw [hu]) hufix
  cases cfg.blk with
  | false => exact ⟨u, _, fl', [], rfl, hinvu, rfl, hmax, fun _ => hufix⟩
  | true =>
    obtain ⟨s', A', fl'', av', heq, hinv', hreg⟩ := hinvu.initFixPool hufix
    refine ⟨s', A', fl'', av', ?_, hinv', by simpa using hreg, hmax, by simp⟩
    rw [if_pos rfl, heq]
    rfl

end Setup

end GenieSdk.Analysis
