import GenieSdk.Analysis.MmLayout

/-!
# What the operations do to the blocks

For each of taking a free block, freeing, shrinking and enlarging, the run of blocks it replaces
and the run it leaves. All go through `HeapRep.spliceRep`: evaluate the headers of the new run,
show that nothing else was written, and that the lists hold exactly the free blocks again.
-/

set_option autoImplicit false

namespace GenieSdk.Analysis

open GenieSdk.Lib GenieSdk.Model

/-! ## Writes that the lists do not see -/

section Writes

variable {cfg : MmConfig} {s : MmHead} {fl : ℕ → List ℕ}

/-- A write to a word that is no link leaves the free lists. -/
theorem FreelistsOk.write (h : FreelistsOk cfg s fl) {a : ℕ} (ha : NoLink fl a) (v : ℕ) :
    FreelistsOk cfg { s with mem := setWord s.mem a v } fl := by
  refine h.congr rfl rfl ?_
  intro l y hy
  obtain ⟨h16, h20⟩ := ha l y hy
  exact ⟨setWord_ne h16.symm, setWord_ne h20.symm⟩

/-- A word that is no link of longer lists is none of shorter ones. -/
theorem NoLink.mono {fl₁ : ℕ → List ℕ} {a : ℕ} (h : NoLink fl a)
    (hsub : ∀ l, ∀ y ∈ fl₁ l, y ∈ fl l) : NoLink fl₁ a :=
  fun l y hy => h l y (hsub l y hy)

@[simp] theorem addsize_mem (size req : ℕ) : (addsize cfg s size req).mem = s.mem := rfl
@[simp] theorem addsize_fixPool (size req : ℕ) : (addsize cfg s size req).fixPool = s.fixPool := rfl
@[simp] theorem addsize_pool (size req : ℕ) : (addsize cfg s size req).pool = s.pool := rfl
@[simp] theorem removesize_mem (size : ℕ) : (removesize s size).mem = s.mem := rfl
@[simp] theorem removesize_fixPool (size : ℕ) : (removesize s size).fixPool = s.fixPool := rfl
@[simp] theorem removesize_pool (size : ℕ) : (removesize s size).pool = s.pool := rfl

/-- Counting an allocation leaves the free lists. -/
theorem FreelistsOk.addsize (h : FreelistsOk cfg s fl) (size req : ℕ) :
    FreelistsOk cfg (addsize cfg s size req) fl :=
  h.congr rfl rfl (fun _ _ _ => ⟨rfl, rfl⟩)

/-- Counting a block that is given back leaves them. -/
theorem FreelistsOk.removesize (h : FreelistsOk cfg s fl) (size : ℕ) :
    FreelistsOk cfg (removesize s size) fl :=
  h.congr rfl rfl (fun _ _ _ => ⟨rfl, rfl⟩)

end Writes

/-! ## The neighbourhood of a block -/

section Around

variable {cfg : MmConfig} {s s' : MmHead} {A A₁ A₂ : HeapBlks} {fl fl' : ℕ → List ℕ}
  {r : Region} {L R mid mid' S : List Blk} {x n : Blk}

/-- What surrounds the run `mid`: it starts behind `L` and ends at the block `n`. -/
structure Around (cfg : MmConfig) (s : MmHead) (A A₁ A₂ : HeapBlks) (fl : ℕ → List ℕ) (r : Region)
    (L mid R S : List Blk) (n : Blk) : Prop where
  rep : HeapRep cfg s A fl
  blks : A = A₁ ++ (r, L ++ mid ++ R) :: A₂
  rest : R ++ [r.last] = n :: S

/-- The run lies in its region. -/
theorem Around.region (h : Around cfg s A A₁ A₂ fl r L mid R S n) :
    RegionOk s.mem r (L ++ mid ++ R) :=
  h.rep.layout.region (r, _) (by simp [h.blks])

/-- The blocks of the run lie one behind the other, up to the next one. -/
theorem Around.laid (h : Around cfg s A A₁ A₂ fl r L mid R S n) :
    Laid s.mem (runStart r L) (mid ++ [n]) := by
  have hl := h.region.laid
  rw [blks_split r h.rest, show mid ++ n :: S = (mid ++ [n]) ++ S by simp] at hl
  exact (laid_append.1 (laid_append.1 hl).2).1

/-- The block behind the run is one of the heap. -/
theorem Around.n_mem (h : Around cfg s A A₁ A₂ fl r L mid R S n) : n ∈ allBlks A := by
  apply mem_allBlks.2
  refine ⟨(r, L ++ mid ++ R), by simp [h.blks], ?_⟩
  show n ∈ r.blks (L ++ mid ++ R)
  rw [blks_split r h.rest]
  simp

/-- The blocks of the run are blocks of users. -/
theorem Around.mid_mem (h : Around cfg s A A₁ A₂ fl r L mid R S n) (hx : x ∈ mid) :
    x ∈ userBlks A :=
  mem_userBlks.2 ⟨(r, L ++ mid ++ R), by simp [h.blks], by simp [hx]⟩

/-- The end of the run, as addresses. -/
theorem Around.n_bounds (h : Around cfg s A A₁ A₂ fl r L mid R S n) :
    0 < (runStart r L).addr ∧ (runStart r L).addr % 8 = 0 ∧
      (cursorAfter (runStart r L) mid).addr = n.addr ∧ n.addr + 16 ≤ r.stop ∧
      r.start + 24 ≤ (runStart r L).addr ∧ r.stop ≤ sizeRange := by
  have hr := h.region
  have hl := hr.laid
  rw [blks_split r h.rest] at hl
  obtain ⟨hpre, hpost⟩ := laid_append.1 hl
  obtain ⟨hmid, hn, hS⟩ := laid_append.1 hpost
  have hfirst := (hpre.bounds.2 r.first (by simp)).2
  have hnextf : r.first.next = r.start + 16 + 8 := rfl
  have hal := (hpre.aligned hr.wf.start_al).1
  have hlo := hr.wf.lo_pos
  have hlo' := hr.wf.lo_le
  have hhi := hr.wf.stop_le
  have hhi' := hr.wf.hi_le
  have hstop : (cursorAfter n.cursor S).addr = r.stop := by
    have := hr.end_eq
    rw [blks_split r h.rest, cursorAfter_append, cursorAfter_append] at this
    exact this
  have hSb := hS.bounds.1
  have hncur : n.cursor.addr = n.addr + 16 + n.size := rfl
  unfold runStart
  refine ⟨by omega, hal, hn.addr.symm, by omega, by omega, by omega⟩

/-- A user block outside the run. -/
def Outside (A₁ A₂ : HeapBlks) (L R : List Blk) (b : Blk) : Prop :=
  b ∈ userBlks A₁ ∨ b ∈ L ∨ b ∈ R ∨ b ∈ userBlks A₂

/-- A block of a user is in the run or outside. -/
theorem mem_userBlks_run {b : Blk} :
    b ∈ userBlks (A₁ ++ (r, L ++ mid ++ R) :: A₂) ↔ b ∈ mid ∨ Outside A₁ A₂ L R b := by
  simp only [userBlks, Outside, List.flatMap_append, List.flatMap_cons, List.mem_append]
  tauto

/-- The blocks outside are blocks of the heap. -/
theorem Around.outside_mem (h : Around cfg s A A₁ A₂ fl r L mid R S n) {b : Blk}
    (hb : Outside A₁ A₂ L R b) : b ∈ userBlks A := by
  rw [h.blks]
  exact mem_userBlks_run.2 (.inr hb)

/-- Blocks outside lie before the run or from `n` on. -/
theorem Around.outside_addr (h : Around cfg s A A₁ A₂ fl r L mid R S n) {b : Blk}
    (hb : Outside A₁ A₂ L R b) : b.next ≤ (runStart r L).addr ∨ n.addr ≤ b.addr := by
  have hr := h.region
  have hl := hr.laid
  rw [blks_split r h.rest] at hl
  obtain ⟨hpre, hpost⟩ := laid_append.1 hl
  obtain ⟨hmid, hn, hS⟩ := laid_append.1 hpost
  have hnb := h.n_bounds
  have hncur : n.cursor.addr = n.addr + 16 + n.size := rfl
  have hother : ∀ p, p ∈ A₁ ∨ p ∈ A₂ → b ∈ p.2 →
      b.next ≤ (runStart r L).addr ∨ n.addr ≤ b.addr := by
    intro p hp hbp
    have hpA : p ∈ A := by
      rw [h.blks]
      simp only [List.mem_append, List.mem_cons]
      tauto
    have hpok := h.rep.layout.region p hpA
    have hap : RegionsApart p (r, L ++ mid ++ R) := by
      have hpw := h.rep.layout.apart
      rw [h.blks, List.pairwise_append] at hpw
      obtain ⟨-, hpw2, hcross⟩ := hpw
      rcases hp with hp1 | hp2
      · exact hcross p hp1 _ (by simp)
      · exact ((List.pairwise_cons.1 hpw2).1 p hp2).symm
    have hbb := hpok.mem_bounds (mem_blks.2 (.inr (.inl hbp)))
    have hp1 := hpok.wf.lo_le
    have hp2 := hpok.wf.stop_le
    have hr1 := hr.wf.lo_le
    have hr2 := hr.wf.stop_le
    rcases hap with hle | hle
    · simp only at hle
      omega
    · simp only at hle
      omega
  rcases hb with hb | hb | hb | hb
  · obtain ⟨p, hp, hbp⟩ := mem_userBlks.1 hb
    exact hother p (.inl hp) hbp
  · exact .inl (hpre.bounds.2 b (by simp [hb])).2
  · right
    have hbS : b ∈ n :: S := by
      rw [← h.rest]
      simp [hb]
    rcases List.mem_cons.1 hbS with rfl | hbS
    · exact le_refl _
    · have := (hS.bounds.2 b hbS).1
      omega
  · obtain ⟨p, hp, hbp⟩ := mem_userBlks.1 hb
    exact hother p (.inr hp) hbp

/-- A filed block that is not in the run is a free block outside of it. -/
theorem Around.filed_outside (h : Around cfg s A A₁ A₂ fl r L mid R S n) {l y : ℕ}
    (hy : y ∈ fl l) (hmid : ∀ z ∈ mid, z.addr ≠ y) :
    ∃ b, Outside A₁ A₂ L R b ∧ b.addr = y ∧ b.free = true ∧ sizeToLevel cfg b.size = some l ∧
      32 ≤ b.size := by
  obtain ⟨b, hb, rfl, hfree, hlev⟩ := (h.rep.filed l y).1 hy
  have hmin := h.rep.min_size hb
  rw [h.blks] at hb
  rcases mem_userBlks_run.1 hb with hb | hb
  · exact absurd rfl (hmid b hb)
  · exact ⟨b, hb, rfl, hfree, hlev, hmin⟩

/-- No word of the run or of the header behind it is a link of a block outside. -/
theorem Around.run_noLink (h : Around cfg s A A₁ A₂ fl r L mid R S n) (hn : n.free = false)
    {fl₁ : ℕ → List ℕ} (hfl₁ : ∀ l y, y ∈ fl₁ l → y ∈ fl l ∧ ∀ z ∈ mid, z.addr ≠ y) {a : ℕ}
    (hlo : (runStart r L).addr ≤ a) (hhi : a < n.addr + 16) : NoLink fl₁ a := by
  intro l y hy
  obtain ⟨hyfl, hymid⟩ := hfl₁ l y hy
  obtain ⟨b, hb, rfl, hfree, -, hmin⟩ := h.filed_outside hyfl hymid
  have hnext : b.next = b.addr + 16 + b.size := rfl
  rcases h.outside_addr hb with hle | hle
  · omega
  · have hne : b ≠ n := by
      rintro rfl
      rw [hfree] at hn
      cases hn
    rcases h.rep.layout.disjoint (mem_allBlks_of_mem_userBlks (h.outside_mem hb)) h.n_mem hne
      with hd | hd
    · omega
    · have hnn : n.next = n.addr + 16 + n.size := rfl
      omega

/-- **The splice rule for the whole heap.** -/
theorem Around.splice (h : Around cfg s A A₁ A₂ fl r L mid R S n)
    (hframe : Frame fl (runStart r L).addr (n.addr + 16) s.mem s'.mem)
    (hnew : Laid s'.mem (runStart r L) (mid' ++ [n])) (hmin : ∀ x ∈ mid', 32 ≤ x.size)
    (hlists : FreelistsOk cfg s' fl')
    (hfl : ∀ l a, a ∈ fl' l ↔ (a ∈ fl l ∧ ∀ y ∈ mid, y.addr ≠ a) ∨
      ∃ b ∈ mid', b.addr = a ∧ b.free = true ∧ sizeToLevel cfg b.size = some l) :
    HeapRep cfg s' (A₁ ++ (r, L ++ mid' ++ R) :: A₂) fl' := by
  refine ⟨h.rep.splice h.blks h.rest hframe hnew hmin, hlists, ?_⟩
  intro l a
  rw [hfl]
  have hmidaddr : ∀ y ∈ mid, (runStart r L).addr ≤ y.addr ∧ y.addr < n.addr := by
    intro y hy
    have hb := (laid_append.1 h.laid).1.bounds.2 y hy
    have hn := h.n_bounds
    have hnext : y.next = y.addr + 16 + y.size := rfl
    omega
  constructor
  · rintro (⟨ha, hmid⟩ | ⟨b, hb, hrest⟩)
    · obtain ⟨b, hb, hba, hfree, hlev, -⟩ := h.filed_outside ha hmid
      exact ⟨b, mem_userBlks_run.2 (.inr hb), hba, hfree, hlev⟩
    · exact ⟨b, mem_userBlks_run.2 (.inl hb), hrest⟩
  · rintro ⟨b, hb, rfl, hfree, hlev⟩
    rcases mem_userBlks_run.1 hb with hb | hb
    · exact .inr ⟨b, hb, rfl, hfree, hlev⟩
    · left
      refine ⟨(h.rep.filed l b.addr).2 ⟨b, h.outside_mem hb, rfl, hfree, hlev⟩, ?_⟩
      intro y hy he
      have hya := hmidaddr y hy
      have hnext : b.next = b.addr + 16 + b.size := rfl
      rcases h.outside_addr hb with hle | hle
      · omega
      · omega

/-- **The splice rule for a split**: the run becomes an allocated block `x` and a free rest `w`, which is filed, as
their header words and those of the block behind say. -/
theorem Around.spliceSplit (h : Around cfg s A A₁ A₂ fl r L mid R S n) {x w : Blk} {fl₁ : ℕ → List ℕ}
    (hframe : Frame fl (runStart r L).addr (n.addr + 16) s.mem s'.mem)
    (hx : x.addr = (runStart r L).addr ∧ x.free = false ∧ x.size % 8 = 0 ∧ 32 ≤ x.size)
    (hw : w.addr = x.next ∧ w.free = true ∧ w.size % 8 = 0 ∧ 32 ≤ w.size) (hn : n.addr = w.next ∧ n.free = false)
    (hxm : s'.mem (x.addr + 12) = blkWord (runStart r L).pfree x ∧
      ((runStart r L).pfree = true → s'.mem (x.addr + 8) = (runStart r L).prev) ∧ s'.mem x.addr = mmCorruptDye)
    (hwm : s'.mem (w.addr + 12) = blkWord false w ∧ s'.mem w.addr = mmFreeDye)
    (hnm : s'.mem (n.addr + 12) = blkWord true n ∧ s'.mem (n.addr + 8) = w.addr ∧ s'.mem n.addr = mmCorruptDye)
    (hlists : FreelistsOk cfg s' (fileBlk cfg fl₁ w.addr w.size))
    (hfl₁ : ∀ l y, y ∈ fl₁ l ↔ y ∈ fl l ∧ ∀ z ∈ mid, z.addr ≠ y) :
    HeapRep cfg s' (A₁ ++ (r, L ++ [x, w] ++ R) :: A₂) (fileBlk cfg fl₁ w.addr w.size) := by
  have hnl := (laid_append.1 h.laid).2.1
  obtain ⟨hxa, hxf, hxal, hxs⟩ := hx
  obtain ⟨hwa, hwf, hwal, hws⟩ := hw
  refine h.splice hframe ⟨⟨hxa, hxm.1, hxm.2.1, ?_, fun _ => hxf, hxal, ?_⟩,
    ⟨hwa, ?_, ?_, ?_, ?_, hwal, fun _ => hws⟩, ⟨hn.1, ?_, fun _ => hnm.2.1, ?_, fun _ => hn.2, hnl.aligned,
      hnl.free_size⟩, trivial⟩ ?_ hlists ?_
  · simp [hxf, hxm.2.2]
  · simp [hxf]
  · simp [Blk.cursor, hxf, hwm.1]
  · simp [Blk.cursor, hxf]
  · simp [hwf, hwm.2]
  · simp [Blk.cursor, hxf]
  · simp [Blk.cursor, hwf, hnm.1]
  · simp [hn.2, hnm.2.2]
  · simp [hxs, hws]
  · intro l a
    rw [mem_fileBlk, hfl₁]
    simp only [List.mem_cons, List.not_mem_nil, or_false, exists_eq_or_imp, exists_eq_left, hxf, hwf]
    constructor
    · rintro (⟨rfl, hlev⟩ | ha)
      · exact .inr (.inr ⟨rfl, trivial, hlev⟩)
      · exact .inl ha
    · rintro (ha | ⟨-, hc, -⟩ | ⟨rfl, -, hlev⟩)
      · exact .inr ha
      · cases hc
      · exact .inl ⟨rfl, hlev⟩

/-- Two blocks at one address are one block. -/
theorem HeapRep.eq_of_addr (h : HeapRep cfg s A fl) {x y : Blk} (hx : x ∈ allBlks A)
    (hy : y ∈ allBlks A) (he : x.addr = y.addr) : x = y := by
  by_contra hne
  have hxn : x.next = x.addr + 16 + x.size := rfl
  have hyn : y.next = y.addr + 16 + y.size := rfl
  rcases h.layout.disjoint hx hy hne with hd | hd
  · omega
  · omega

/-- No word of an allocated block is a link. -/
theorem HeapRep.noLink_used (h : HeapRep cfg s A fl) {x : Blk} (hx : x ∈ allBlks A)
    (hxf : x.free = false) {a : ℕ} (hlo : x.addr ≤ a) (hhi : a < x.next) : NoLink fl a := by
  apply h.noLink hx hlo (.inr hhi)
  intro hc
  rw [hxf] at hc
  cases hc

/-- A free block is filed at the level of its size, and nowhere else. -/
theorem HeapRep.filed_blk (h : HeapRep cfg s A fl) {x : Blk} (hx : x ∈ userBlks A)
    (hfree : x.free = true) (l : ℕ) : x.addr ∈ fl l ↔ sizeToLevel cfg x.size = some l := by
  rw [h.filed]
  constructor
  · rintro ⟨b, hb, hba, -, hlev⟩
    rw [← h.eq_of_addr (mem_allBlks_of_mem_userBlks hb) (mem_allBlks_of_mem_userBlks hx) hba]
    exact hlev
  · intro hlev
    exact ⟨x, hx, rfl, hfree, hlev⟩

/-- Deleting a free block of the run from its list. -/
theorem HeapRep.deleteBlk (h : HeapRep cfg s A fl) {t : MmHead} {fl₁ : ℕ → List ℕ} {x : Blk}
    (hx : x ∈ userBlks A) (hfree : x.free = true) (ht : FreelistsOk cfg t fl₁)
    (hsize : mmGetBufSize t.mem x.addr = x.size) (hfl₁ : ∀ l, x.addr ∈ fl₁ l ↔ x.addr ∈ fl l) :
    FreelistsOk cfg (kMmFreelistDelete cfg t x.addr) (fun k => (fl₁ k).erase x.addr) ∧
      ∀ a, NoLink fl₁ a → (kMmFreelistDelete cfg t x.addr).mem a = t.mem a := by
  apply ht.delete
  intro l
  rw [hfl₁, hsize]
  exact h.filed_blk hx hfree l

/-- `s₁` is `s` with the free block `g` deleted from its list, where `n` is behind it; `pf` says whether the block in
front is free. -/
structure Unfiled (cfg : MmConfig) (fl : ℕ → List ℕ) (g n : Blk) (pf : Bool) (s s₁ : MmHead) : Prop where
  lists : FreelistsOk cfg s₁ fun k => (fl k).erase g.addr
  mem : ∀ a, NoLink fl a → s₁.mem a = s.mem a
  pool : s₁.pool = s.pool
  fixPool : s₁.fixPool = s.fixPool
  own_header : ∀ o < 16, s₁.mem (g.addr + o) = s.mem (g.addr + o)
  next_header : ∀ o < 16, s₁.mem (n.addr + o) = s.mem (n.addr + o)
  own_word : s₁.mem (g.addr + 12) = blkWord pf g
  next_word : s₁.mem (n.addr + 12) = blkWord true n
  bufSize : mmGetBufSize s₁.mem g.addr = g.size
  nextBlk : mmGetNextBlk s₁.mem g.addr = n.addr

/-- What the deletion of a free block of the run leaves. -/
theorem Around.unfile {g : Blk} (h : Around cfg s A A₁ A₂ fl r L [g] R S n) (hfree : g.free = true)
    {s₁ : MmHead} (hs₁ : kMmFreelistDelete cfg s g.addr = s₁) :
    Unfiled cfg fl g n (runStart r L).pfree s s₁ := by
  obtain ⟨hg, hn, -⟩ := h.laid
  have hgu : g ∈ userBlks A := h.mid_mem (by simp)
  have hga := mem_allBlks_of_mem_userBlks hgu
  have hgb := h.rep.blk_bounds hga
  have hnb := h.n_bounds
  have hnaddr : n.addr = g.addr + 16 + g.size := hn.addr
  obtain ⟨hl₁, hm₁⟩ := h.rep.deleteBlk hgu hfree h.rep.lists hg.bufSize (fun _ => Iff.rfl)
  subst hs₁
  have hgw : ∀ o < 16, (kMmFreelistDelete cfg s g.addr).mem (g.addr + o) = s.mem (g.addr + o) := fun o ho =>
    hm₁ _ (h.rep.noLink hga (by omega) (by omega) (by omega))
  have hnw : ∀ o < 16, (kMmFreelistDelete cfg s g.addr).mem (n.addr + o) = s.mem (n.addr + o) := fun o ho =>
    hm₁ _ (h.rep.noLink h.n_mem (by omega) (by omega) (by omega))
  have hgw12 : (kMmFreelistDelete cfg s g.addr).mem (g.addr + 12) = blkWord (runStart r L).pfree g := by
    rw [hgw 12 (by norm_num), hg.word]
  have hnw12 : (kMmFreelistDelete cfg s g.addr).mem (n.addr + 12) = blkWord true n := by
    rw [hnw 12 (by norm_num), hn.word]
    show blkWord g.free n = _
    rw [hfree]
  have hbuf : mmGetBufSize (kMmFreelistDelete cfg s g.addr).mem g.addr = g.size := by
    unfold mmGetBufSize
    rw [hgw12, blkWord_bufSize hg.aligned]
  refine ⟨hl₁, hm₁, by simp, by simp, hgw, hnw, hgw12, hnw12, hbuf, ?_⟩
  unfold mmGetNextBlk
  rw [hbuf, addSize_eq (by simp only [mmlistHeadSize]; omega)]
  simp only [mmlistHeadSize]
  omega

/-- `k_mm_alloc` takes a free block whole when the rest is too small for a block. -/
theorem Around.takeWhole {g : Blk} (h : Around cfg s A A₁ A₂ fl r L [g] R S n)
    (hfree : g.free = true) {size : ℕ} (req : ℕ) (hrest : ¬ size + 48 ≤ g.size) :
    ∃ fl', (kMmTake cfg s g.addr size req).1 = g.addr + 16 ∧
      HeapRep cfg (kMmTake cfg s g.addr size req).2
        (A₁ ++ (r, L ++ [⟨g.addr, g.size, false⟩] ++ R) :: A₂) fl' ∧
      Frame fl g.addr (n.addr + 16) s.mem (kMmTake cfg s g.addr size req).2.mem ∧
      (kMmTake cfg s g.addr size req).2.fixPool = s.fixPool ∧
      (kMmTake cfg s g.addr size req).2.pool = s.pool := by
  obtain ⟨hg, hn, -⟩ := h.laid
  have hnfree : n.free = false := hn.apart hfree
  have hgu : g ∈ userBlks A := h.mid_mem (by simp)
  have hga := mem_allBlks_of_mem_userBlks hgu
  have hgb := h.rep.blk_bounds hga
  have hnb := h.n_bounds
  have hgaddr := hg.addr
  have hnaddr : n.addr = g.addr + 16 + g.size := hn.addr
  have hgn : g.next = g.addr + 16 + g.size := rfl
  have hgmin := h.rep.min_size hgu
  obtain ⟨s₁, hs₁⟩ : ∃ s₁, kMmFreelistDelete cfg s g.addr = s₁ := ⟨_, rfl⟩
  obtain ⟨hl₁, hm₁, hpool₁, hfix₁, hgw, hnw, hgw12, hnw12, hbuf, hnext⟩ := h.unfile hfree hs₁
  have hclr : mmClearPrevFree (blkWord true n) = blkWord false n := mmClearPrevFree_blkWord hn.aligned
  have hcf : mmClearFree (blkWord (runStart r L).pfree g) =
      blkWord (runStart r L).pfree ⟨g.addr, g.size, false⟩ := mmClearFree_blkWord hg.aligned
  obtain ⟨sz, heq⟩ : ∃ sz, kMmTake cfg s g.addr size req =
      (g.addr + 16, addsize cfg { s₁ with
        mem := setWord (setWord (setWord (setWord s₁.mem (n.addr + 12) (blkWord false n))
          (g.addr + 12) (blkWord (runStart r L).pfree ⟨g.addr, g.size, false⟩))
          g.addr mmCorruptDye) (g.addr + 4) 0 } sz req) := by
    unfold kMmTake
    simp only [hs₁, hnext, hbuf, mmlistHeadSize, mmMinSize]
    rw [if_neg (by omega)]
    simp (disch := omega) only [setWord_ne, hgw12, hnw12, hclr, hcf]
    exact ⟨_, rfl⟩
  rw [heq]
  have hsub : ∀ a, NoLink fl a → NoLink (fun k => (fl k).erase g.addr) a := fun a ha =>
    ha.mono (fun l y hy => List.mem_of_mem_erase hy)
  have hkg : ∀ o < 16, NoLink (fun k => (fl k).erase g.addr) (g.addr + o) := fun o ho =>
    hsub _ (h.rep.noLink hga (by omega) (by omega) (by omega))
  have hkn : NoLink (fun k => (fl k).erase g.addr) (n.addr + 12) :=
    hsub _ (h.rep.noLink h.n_mem (by omega) (by omega) (by omega))
  have hframe : Frame fl (runStart r L).addr (n.addr + 16) s.mem
      (setWord (setWord (setWord (setWord s₁.mem (n.addr + 12) (blkWord false n))
          (g.addr + 12) (blkWord (runStart r L).pfree ⟨g.addr, g.size, false⟩))
          g.addr mmCorruptDye) (g.addr + 4) 0) := by
    intro a ha hout
    simp (disch := omega) only [setWord_ne]
    exact hm₁ a ha
  refine ⟨fun k => (fl k).erase g.addr, rfl, ?_, hgaddr ▸ hframe, hfix₁, hpool₁⟩
  apply h.splice hframe
  · refine ⟨⟨hgaddr, ?_, ?_, ?_, ?_, hg.aligned, ?_⟩, ⟨hnaddr, ?_, ?_, ?_, ?_, hn.aligned, ?_⟩, trivial⟩
    · simp (disch := omega) only [addsize_mem, setWord_ne, setWord_same]
    · intro hp
      simp (disch := omega) only [addsize_mem, setWord_ne]
      rw [hgw 8 (by norm_num)]
      exact hg.prev hp
    · simp (disch := omega) only [addsize_mem, setWord_ne, setWord_same]
      rfl
    · intro _
      rfl
    · intro hc
      cases hc
    · simp (disch := omega) only [addsize_mem, setWord_ne, setWord_same]
      rfl
    · intro hc
      cases hc
    · have hn0 := hnw 0 (by norm_num)
      simp (disch := omega) only [addsize_mem, setWord_ne]
      rw [Nat.add_zero] at hn0
      rw [hn0]
      exact hn.dye
    · intro _
      exact hnfree
    · exact hn.free_size
  · simpa using hgmin
  · have h4 := hkg 4 (by norm_num)
    have h12 := hkg 12 (by norm_num)
    have h0 := hkg 0 (by norm_num)
    rw [Nat.add_zero] at h0
    exact ((((hl₁.write hkn _).write h12 _).write h0 _).write h4 _).addsize _ _
  · intro l a
    rw [(h.rep.lists.nodup l).mem_erase_iff]
    simp
    tauto

/-- No address of the run is filed once its own blocks are out of the lists. -/
theorem Around.run_fresh (h : Around cfg s A A₁ A₂ fl r L mid R S n) {fl₁ : ℕ → List ℕ}
    (hfl₁ : ∀ l y, y ∈ fl₁ l → y ∈ fl l ∧ ∀ z ∈ mid, z.addr ≠ y) {a : ℕ}
    (hlo : (runStart r L).addr ≤ a) (hhi : a < n.addr) (l : ℕ) : a ∉ fl₁ l := by
  intro ha
  obtain ⟨hafl, hamid⟩ := hfl₁ l a ha
  obtain ⟨b, hb, rfl, -, -, -⟩ := h.filed_outside hafl hamid
  have hnext : b.next = b.addr + 16 + b.size := rfl
  rcases h.outside_addr hb with hle | hle
  · omega
  · omega

/-- Filing a block makes links of no words but its own two. -/
theorem noLink_fileBlk {fl₁ : ℕ → List ℕ} {y size a : ℕ} (h : NoLink fl₁ a) (h16 : a ≠ y + 16)
    (h20 : a ≠ y + 20) : NoLink (fileBlk cfg fl₁ y size) a := by
  intro l z hz
  rcases mem_fileBlk.1 hz with ⟨rfl, -⟩ | hz
  · exact ⟨h16, h20⟩
  · exact h l z hz

/-- `k_mm_alloc` splits a free block and files the rest. -/
theorem Around.takeSplit {g : Blk} (h : Around cfg s A A₁ A₂ fl r L [g] R S n)
    (hfree : g.free = true) {size : ℕ} (req : ℕ) (hsize : size % 8 = 0) (hmin : 32 ≤ size)
    (hrest : size + 48 ≤ g.size) :
    ∃ fl', (kMmTake cfg s g.addr size req).1 = g.addr + 16 ∧
      HeapRep cfg (kMmTake cfg s g.addr size req).2
        (A₁ ++ (r, L ++ [⟨g.addr, size, false⟩, ⟨g.addr + 16 + size, g.size - size - 16, true⟩] ++ R)
          :: A₂) fl' ∧
      Frame fl g.addr (n.addr + 16) s.mem (kMmTake cfg s g.addr size req).2.mem ∧
      (kMmTake cfg s g.addr size req).2.fixPool = s.fixPool ∧
      (kMmTake cfg s g.addr size req).2.pool = s.pool := by
  obtain ⟨hg, hn, -⟩ := h.laid
  have hnfree : n.free = false := hn.apart hfree
  have hgu : g ∈ userBlks A := h.mid_mem (by simp)
  have hga := mem_allBlks_of_mem_userBlks hgu
  have hgb := h.rep.blk_bounds hga
  have hnb := h.n_bounds
  have hgaddr := hg.addr
  have hgal := hg.aligned
  have hnaddr : n.addr = g.addr + 16 + g.size := hn.addr
  have hgn : g.next = g.addr + 16 + g.size := rfl
  obtain ⟨s₁, hs₁⟩ : ∃ s₁, kMmFreelistDelete cfg s g.addr = s₁ := ⟨_, rfl⟩
  obtain ⟨hl₁, hm₁, hpool₁, hfix₁, hgw, hnw, hgw12, hnw12, hbuf, hnext⟩ := h.unfile hfree hs₁
  have hfl₁ : ∀ l y, y ∈ (fl l).erase g.addr ↔ y ∈ fl l ∧ ∀ z ∈ [g], z.addr ≠ y := by
    intro l y
    rw [(h.rep.lists.nodup l).mem_erase_iff, and_comm]
    simp [eq_comm]
  have hk : ∀ a, (runStart r L).addr ≤ a → a < n.addr + 16 →
      NoLink (fun k => (fl k).erase g.addr) a := fun a => h.run_noLink hnfree fun l y => (hfl₁ l y).1
  generalize hpf : (runStart r L).pfree = pf at *
  -- the two new blocks
  obtain ⟨g', hg'⟩ : ∃ b : Blk, b = ⟨g.addr, size, false⟩ := ⟨_, rfl⟩
  obtain ⟨w, hw⟩ : ∃ b : Blk, b = ⟨g.addr + 16 + size, g.size - size - 16, true⟩ := ⟨_, rfl⟩
  rw [← hg', ← hw]
  have hga' : g'.addr = g.addr := by rw [hg']
  have hgs' : g'.size = size := by rw [hg']
  have hgf' : g'.free = false := by rw [hg']
  have hwa : w.addr = g.addr + 16 + size := by rw [hw]
  have hws : w.size = g.size - size - 16 := by rw [hw]
  have hwf : w.free = true := by rw [hw]
  have hgal' : g'.size % 8 = 0 := by omega
  have hwal : w.size % 8 = 0 := by omega
  have hkeep : mmKeepPrevStat size (blkWord pf g) = blkWord pf g' := by
    rw [hg']
    exact mmKeepPrevStat_blkWord hgal size
  have hww : g.size - size - 16 + 1 = blkWord false w := by
    simp [blkWord, hw]
  have hnewB : ∀ m, mmGetNextBlk (setWord m (g.addr + 12) (blkWord pf g')) g.addr = w.addr := by
    intro m
    unfold mmGetNextBlk mmGetBufSize
    rw [setWord_same, blkWord_bufSize hgal', addSize_eq (by simp only [mmlistHeadSize]; omega)]
    simp only [mmlistHeadSize]
    omega
  obtain ⟨m₂, hm₂⟩ : ∃ m : Words, m =
      setWord (setWord (setWord (setWord (setWord (setWord s₁.mem (g.addr + 12) (blkWord pf g'))
        (w.addr + 8) g.addr) (w.addr + 12) (blkWord false w)) w.addr mmFreeDye) (w.addr + 4) 0)
        (n.addr + 8) w.addr := ⟨_, rfl⟩
  have hl₂ : FreelistsOk cfg { s₁ with mem := m₂ } (fun k => (fl k).erase g.addr) := by
    rw [hm₂]
    have k1 := hk (g.addr + 12) (by omega) (by omega)
    have k2 := hk (w.addr + 8) (by omega) (by omega)
    have k3 := hk (w.addr + 12) (by omega) (by omega)
    have k4 := hk w.addr (by omega) (by omega)
    have k5 := hk (w.addr + 4) (by omega) (by omega)
    have k6 := hk (n.addr + 8) (by omega) (by omega)
    exact (((((hl₁.write k1 _).write k2 _).write k3 _).write k4 _).write k5 _).write k6 _
  have hbuf₂ : mmGetBufSize m₂ w.addr = w.size := by
    unfold mmGetBufSize
    rw [hm₂]
    simp (disch := omega) only [setWord_ne, setWord_same]
    exact blkWord_bufSize hwal
  obtain ⟨hl₃, hm₃⟩ := hl₂.insert (fun l => h.run_fresh (fun l y => (hfl₁ l y).1) (by omega) (by omega) l)
    (show w.addr % 8 = 0 by omega) (by omega)
  generalize hs₃ : kMmFreelistInsert cfg { s₁ with mem := m₂ } w.addr = s₃ at hl₃ hm₃
  rw [hbuf₂] at hl₃
  simp only at hm₃
  have hpool₃ : s₃.pool = s.pool := by rw [← hs₃, ← hpool₁]; simp
  have hfix₃ : s₃.fixPool = s.fixPool := by rw [← hs₃, ← hfix₁]; simp
  -- words of the run outside the links of the new free block
  have hrun : ∀ a, (runStart r L).addr ≤ a ∧ a < n.addr + 16 ∧ a ≠ w.addr + 16 ∧ a ≠ w.addr + 20 →
      s₃.mem a = m₂ a := fun a ha => hm₃ a (hk a ha.1 ha.2.1) ha.2.2.1 ha.2.2.2
  have hg12 : s₃.mem (g.addr + 12) = blkWord pf g' := by
    rw [hrun _ (by omega), hm₂]
    simp (disch := omega) only [setWord_ne, setWord_same]
  have hcf : mmClearFree (blkWord pf g') = blkWord pf g' := by
    rw [mmClearFree_blkWord hgal', ← hgf']
  obtain ⟨sz, heq⟩ : ∃ sz, kMmTake cfg s g.addr size req =
      (g.addr + 16, addsize cfg { s₃ with
        mem := setWord (setWord (setWord s₃.mem (g.addr + 12) (blkWord pf g'))
          g.addr mmCorruptDye) (g.addr + 4) 0 } sz req) := by
    unfold kMmTake
    simp only [hs₁, hnext, hbuf, mmlistHeadSize, mmMinSize]
    rw [if_pos (by omega)]
    simp only [hgw12, hkeep, hnewB, hww, ← hm₂, hs₃, hg12, hcf]
    exact ⟨_, rfl⟩
  rw [heq]
  have hframe : Frame fl (runStart r L).addr (n.addr + 16) s.mem
      (setWord (setWord (setWord s₃.mem (g.addr + 12) (blkWord pf g')) g.addr mmCorruptDye)
        (g.addr + 4) 0) := by
    intro a ha hout
    have ha₁ : NoLink (fun k => (fl k).erase g.addr) a :=
      ha.mono (fun l y hy => List.mem_of_mem_erase hy)
    simp (disch := omega) only [setWord_ne]
    rw [hm₃ a ha₁ (by omega) (by omega), hm₂]
    simp (disch := omega) only [setWord_ne]
    exact hm₁ a ha
  refine ⟨fileBlk cfg (fun k => (fl k).erase g.addr) w.addr w.size, rfl, ?_, hgaddr ▸ hframe,
    hfix₃, hpool₃⟩
  obtain ⟨M, hM⟩ : ∃ m : Words, m = setWord (setWord (setWord s₃.mem (g.addr + 12) (blkWord pf g'))
      g.addr mmCorruptDye) (g.addr + 4) 0 := ⟨_, rfl⟩
  have hMrun : ∀ a, ((runStart r L).addr ≤ a ∧ a < n.addr + 16 ∧ a ≠ w.addr + 16 ∧ a ≠ w.addr + 20) ∧
      a ≠ g.addr + 12 ∧ a ≠ g.addr ∧ a ≠ g.addr + 4 → M a = m₂ a := by
    rintro a ⟨ha, h12, h0, h4⟩
    rw [hM]
    simp (disch := omega) only [setWord_ne]
    exact hrun a ha
  have hxm : M (g'.addr + 12) = blkWord pf g' ∧ (pf = true → M (g'.addr + 8) = (runStart r L).prev) ∧
      M g'.addr = mmCorruptDye := by
    rw [hga']
    refine ⟨?_, fun hp => ?_, ?_⟩
    · rw [hM]
      simp (disch := omega) only [setWord_ne, setWord_same]
    · rw [hMrun _ (by omega), hm₂]
      simp (disch := omega) only [setWord_ne]
      rw [hgw 8 (by norm_num)]
      exact hg.prev (hpf.trans hp)
    · rw [hM]
      simp (disch := omega) only [setWord_ne, setWord_same]
  have hwm : M (w.addr + 12) = blkWord false w ∧ M w.addr = mmFreeDye := by
    rw [hMrun _ (by omega), hMrun _ (by omega), hm₂]
    simp (disch := omega) only [setWord_ne, setWord_same, and_self]
  have hnm : M (n.addr + 12) = blkWord true n ∧ M (n.addr + 8) = w.addr ∧ M n.addr = mmCorruptDye := by
    have hn0 := hnw 0 (by norm_num)
    rw [Nat.add_zero] at hn0
    rw [hMrun _ (by omega), hMrun _ (by omega), hMrun _ (by omega), hm₂]
    simp (disch := omega) only [setWord_ne, setWord_same]
    rw [hn0, hn.dye, hnfree]
    exact ⟨hnw12, trivial, rfl⟩
  have hkf : ∀ a, (runStart r L).addr ≤ a ∧ a < n.addr + 16 ∧ a ≠ w.addr + 16 ∧ a ≠ w.addr + 20 →
      NoLink (fileBlk cfg (fun k => (fl k).erase g.addr) w.addr w.size) a :=
    fun a ha => noLink_fileBlk (hk a ha.1 ha.2.1) ha.2.2.1 ha.2.2.2
  have k12 := hkf (g.addr + 12) (by omega)
  have k0 := hkf g.addr (by omega)
  have k4 := hkf (g.addr + 4) (by omega)
  have hl₄ := ((hl₃.write k12 (blkWord pf g')).write k0 mmCorruptDye).write k4 0
  subst hM hpf
  exact h.spliceSplit hframe ⟨hga'.trans hgaddr, hgf', hgal', by omega⟩
    ⟨by simp only [Blk.next]; omega, hwf, hwal, by omega⟩ ⟨by simp only [Blk.next]; omega, hnfree⟩ hxm hwm hnm
    (hl₄.addsize sz req) hfl₁

/-! ## Opening a run: its free blocks are out of the lists -/

/-- From `s` to `t` the free blocks of the run were taken out of the lists, and otherwise only
words of the run were written. -/
structure Opened (cfg : MmConfig) (s t : MmHead) (A A₁ A₂ : HeapBlks) (fl fl₁ : ℕ → List ℕ)
    (r : Region) (L mid R S : List Blk) (n : Blk) : Prop where
  around : Around cfg s A A₁ A₂ fl r L mid R S n
  lists : FreelistsOk cfg t fl₁
  filed : ∀ l y, y ∈ fl₁ l ↔ y ∈ fl l ∧ ∀ z ∈ mid, z.addr ≠ y
  frame : Frame fl (runStart r L).addr n.addr s.mem t.mem
  fixPool : t.fixPool = s.fixPool
  pool : t.pool = s.pool

variable {t : MmHead} {fl₁ : ℕ → List ℕ}

/-- A block in use is opened as it is. -/
theorem Opened.start (h : Around cfg s A A₁ A₂ fl r L [x] R S n) (hx : x.free = false) :
    Opened cfg s s A A₁ A₂ fl fl r L [x] R S n := by
  refine ⟨h, h.rep.lists, ?_, fun _ _ _ => rfl, rfl, rfl⟩
  intro l y
  refine ⟨fun hy => ⟨hy, ?_⟩, fun hy => hy.1⟩
  intro z hz he
  obtain rfl : z = x := by simpa using hz
  obtain ⟨b, hb, hba, hfree, -⟩ := (h.rep.filed l y).1 hy
  have := h.rep.eq_of_addr (mem_allBlks_of_mem_userBlks hb)
    (mem_allBlks_of_mem_userBlks (h.mid_mem (by simp))) (hba.trans he.symm)
  rw [this, hx] at hfree
  cases hfree

/-- A word that was no link is none in an opened heap. -/
theorem Opened.noLink (h : Opened cfg s t A A₁ A₂ fl fl₁ r L mid R S n) {a : ℕ}
    (ha : NoLink fl a) : NoLink fl₁ a :=
  ha.mono (fun l y hy => ((h.filed l y).1 hy).1)

/-- The words of `n`'s header are still those of `s`. -/
theorem Opened.n_word (h : Opened cfg s t A A₁ A₂ fl fl₁ r L mid R S n) {o : ℕ} (ho : o < 16) :
    t.mem (n.addr + o) = s.mem (n.addr + o) :=
  h.frame _ (h.around.rep.noLink h.around.n_mem (by omega) (by omega) (by omega)) (by omega)

/-- A write inside the run, away from links that still count. -/
theorem Opened.write (h : Opened cfg s t A A₁ A₂ fl fl₁ r L mid R S n) {a : ℕ}
    (ha : NoLink fl₁ a) (hlo : (runStart r L).addr ≤ a) (hhi : a < n.addr) (v : ℕ) :
    Opened cfg s { t with mem := setWord t.mem a v } A A₁ A₂ fl fl₁ r L mid R S n := by
  refine ⟨h.around, h.lists.write ha v, h.filed, ?_, h.fixPool, h.pool⟩
  intro b hb hout
  show setWord t.mem a v b = s.mem b
  rw [setWord_ne (by omega)]
  exact h.frame b hb hout

/-- Counting a block that is given back leaves the heap opened. -/
theorem Opened.removesize (h : Opened cfg s t A A₁ A₂ fl fl₁ r L mid R S n) (size : ℕ) :
    Opened cfg s (removesize t size) A A₁ A₂ fl fl₁ r L mid R S n :=
  ⟨h.around, h.lists.removesize size, h.filed, h.frame, h.fixPool, h.pool⟩

/-- A free block is not the end block, so there is a block behind it. -/
theorem Around.rest_of_free (h : Around cfg s A A₁ A₂ fl r L mid R S n) (hfree : n.free = true) :
    ∃ R' n' S', R = n :: R' ∧ S = n' :: S' ∧ R' ++ [r.last] = n' :: S' := by
  have hrest := h.rest
  cases R with
  | nil =>
    obtain ⟨rfl, -⟩ : r.last = n ∧ _ := by simpa using hrest
    cases hfree
  | cons b R' =>
    obtain ⟨rfl, hS⟩ : b = n ∧ R' ++ [r.last] = S := by simpa using hrest
    cases hR : R' ++ [r.last] with
    | nil => simp at hR
    | cons n' S' => exact ⟨R', n', S', rfl, by rw [← hS, hR], hR⟩

/-- Taking the free block behind the run into it. -/
theorem Opened.absorbNext (h : Opened cfg s t A A₁ A₂ fl fl₁ r L mid R S n)
    (hfree : n.free = true) :
    ∃ R' n' S', Opened cfg s (kMmFreelistDelete cfg t n.addr) A A₁ A₂ fl
        (fun k => (fl₁ k).erase n.addr) r L (mid ++ [n]) R' S' n' ∧
      n'.free = false ∧ n'.addr = n.next ∧
      ∀ a, NoLink fl a → (kMmFreelistDelete cfg t n.addr).mem a = t.mem a := by
  obtain ⟨R', n', S', rfl, rfl, hrest⟩ := h.around.rest_of_free hfree
  have har : Around cfg s A A₁ A₂ fl r L (mid ++ [n]) R' S' n' :=
    ⟨h.around.rep, by rw [h.around.blks]; simp, hrest⟩
  have hnu : n ∈ userBlks A := har.mid_mem (by simp)
  have hlaid := har.laid
  rw [List.append_assoc] at hlaid
  obtain ⟨-, hn, hn', -⟩ := laid_append.1 hlaid
  have hword := h.n_word (show 12 < 16 by norm_num)
  have hsize : mmGetBufSize t.mem n.addr = n.size := by
    unfold mmGetBufSize
    rw [hword]
    exact hn.bufSize
  have hnmid : ∀ z ∈ mid, z.addr ≠ n.addr := by
    intro z hz he
    have hb := (laid_append.1 h.around.laid).1.bounds.2 z hz
    have hnb := h.around.n_bounds
    have hz' : z.next = z.addr + 16 + z.size := rfl
    omega
  obtain ⟨hl, hm⟩ := h.around.rep.deleteBlk hnu hfree h.lists hsize
    (fun l => by rw [h.filed]; exact ⟨fun hc => hc.1, fun hc => ⟨hc, hnmid⟩⟩)
  have hmem : ∀ a, NoLink fl a → (kMmFreelistDelete cfg t n.addr).mem a = t.mem a :=
    fun a ha => hm a (h.noLink ha)
  refine ⟨R', n', S', ⟨har, hl, ?_, ?_, by simp [h.fixPool], by simp [h.pool]⟩,
    hn'.apart hfree, hn'.addr, hmem⟩
  · intro l y
    rw [(h.lists.nodup l).mem_erase_iff, h.filed]
    simp only [List.mem_append, List.mem_singleton, or_imp, forall_and, forall_eq]
    constructor
    · rintro ⟨hne, hy, hz⟩
      exact ⟨hy, hz, hne.symm⟩
    · rintro ⟨hy, hz, hne⟩
      exact ⟨hne.symm, hy, hz⟩
  · intro a ha hout
    have hnn : n'.addr = n.addr + 16 + n.size := hn'.addr
    rw [hmem a ha]
    exact h.frame a ha (by omega)

/-- A free predecessor is a user block. -/
theorem runStart_pfree (hp : (runStart r L).pfree = true) :
    ∃ L' p, L = L' ++ [p] ∧ p.free = true ∧ runStart r L = p.cursor := by
  rcases List.eq_nil_or_concat L with rfl | ⟨L', p, rfl⟩
  · cases hp
  · rw [List.concat_eq_append] at hp ⊢
    have hcur : runStart r (L' ++ [p]) = p.cursor := by
      unfold runStart
      rw [← List.cons_append, cursorAfter_append]
      rfl
    rw [hcur] at hp
    exact ⟨L', p, rfl, hp, hcur⟩

/-- Taking the free block before the run into it. -/
theorem Opened.absorbPrev {p : Blk} {L' : List Blk}
    (h : Opened cfg s t A A₁ A₂ fl fl₁ r (L' ++ [p]) mid R S n) (hfree : p.free = true) :
    Opened cfg s (kMmFreelistDelete cfg t p.addr) A A₁ A₂ fl
        (fun k => (fl₁ k).erase p.addr) r L' (p :: mid) R S n ∧
      ∀ a, NoLink fl a → (kMmFreelistDelete cfg t p.addr).mem a = t.mem a := by
  have har : Around cfg s A A₁ A₂ fl r L' (p :: mid) R S n :=
    ⟨h.around.rep, by rw [h.around.blks]; simp, h.around.rest⟩
  have hpu : p ∈ userBlks A := har.mid_mem (by simp)
  have hpa := mem_allBlks_of_mem_userBlks hpu
  obtain ⟨hp, -⟩ := har.laid
  have hcur : runStart r (L' ++ [p]) = p.cursor := by
    unfold runStart
    rw [← List.cons_append, cursorAfter_append]
    rfl
  have hlo : (runStart r (L' ++ [p])).addr = p.addr + 16 + p.size := by rw [hcur]; rfl
  have hlo' : (runStart r L').addr = p.addr := hp.addr.symm
  have hword : t.mem (p.addr + 12) = s.mem (p.addr + 12) :=
    h.frame _ (h.around.rep.noLink hpa (by omega) (by omega) (by omega)) (by omega)
  have hsize : mmGetBufSize t.mem p.addr = p.size := by
    unfold mmGetBufSize
    rw [hword]
    exact hp.bufSize
  have hpmid : ∀ z ∈ mid, z.addr ≠ p.addr := by
    intro z hz he
    have hb := (laid_append.1 h.around.laid).1.bounds.2 z hz
    omega
  obtain ⟨hl, hm⟩ := h.around.rep.deleteBlk hpu hfree h.lists hsize
    (fun l => by rw [h.filed]; exact ⟨fun hc => hc.1, fun hc => ⟨hc, hpmid⟩⟩)
  have hmem : ∀ a, NoLink fl a → (kMmFreelistDelete cfg t p.addr).mem a = t.mem a :=
    fun a ha => hm a (h.noLink ha)
  refine ⟨⟨har, hl, ?_, ?_, by simp [h.fixPool], by simp [h.pool]⟩, hmem⟩
  · intro l y
    rw [(h.lists.nodup l).mem_erase_iff, h.filed]
    simp only [List.mem_cons, or_imp, forall_and, forall_eq]
    constructor
    · rintro ⟨hne, hy, hz⟩
      exact ⟨hy, hne.symm, hz⟩
    · rintro ⟨hy, hne, hz⟩
      exact ⟨hne.symm, hy, hz⟩
  · intro a ha hout
    rw [hmem a ha]
    exact h.frame a ha (by omega)

/-! ## Freeing -/

/-- The header of the block `y` that is to cover the opened run up to `n`. -/
structure Covers (m : Words) (c : Cursor) (y n : Blk) : Prop where
  addr : y.addr = c.addr
  next : y.next = n.addr
  aligned : y.size % 8 = 0
  min_size : 32 ≤ y.size
  word : m (y.addr + 12) = blkWord c.pfree y
  prev : c.pfree = true → m (y.addr + 8) = c.prev
  dye : m y.addr = if y.free then mmFreeDye else mmCorruptDye

/-- The header words of `x`, whatever it covers. -/
structure HeadOf (m : Words) (c : Cursor) (x : Blk) : Prop where
  addr : x.addr = c.addr
  aligned : x.size % 8 = 0
  word : m (x.addr + 12) = blkWord c.pfree x
  prev : c.pfree = true → m (x.addr + 8) = c.prev
  dye : m x.addr = if x.free then mmFreeDye else mmCorruptDye

/-- A header whose 16 bytes stay is the same header. -/
theorem HdrOk.headOf {m m' : Words} {c : Cursor} (h : HdrOk m c x)
    (hw : ∀ o < 16, m' (x.addr + o) = m (x.addr + o)) : HeadOf m' c x := by
  have h0 := hw 0 (by norm_num)
  rw [Nat.add_zero] at h0
  refine ⟨h.addr, h.aligned, ?_, ?_, ?_⟩
  · rw [hw 12 (by norm_num)]
    exact h.word
  · rw [hw 8 (by norm_num)]
    exact h.prev
  · rw [h0]
    exact h.dye

/-- The size in the header of a block that covers the run. -/
theorem Covers.bufSize {m : Words} {c : Cursor} {y : Blk} (h : Covers m c y n) :
    mmGetBufSize m y.addr = y.size := by
  unfold mmGetBufSize
  rw [h.word, blkWord_bufSize h.aligned]

/-- The block behind one that covers the run is the one behind the run. -/
theorem Covers.nextBlk {m : Words} {c : Cursor} {y : Blk} (h : Covers m c y n)
    (hlt : n.addr < sizeRange) : mmGetNextBlk m y.addr = n.addr := by
  have hnext : y.next = y.addr + 16 + y.size := rfl
  have := h.next
  unfold mmGetNextBlk
  rw [h.bufSize, addSize_eq (by simp only [mmlistHeadSize]; omega)]
  simp only [mmlistHeadSize]
  omega

/-- Adding the block behind to the size of a block. -/
theorem blkWord_grow {y : Blk} {pf : Bool} {d : ℕ} (hlt : y.addr + 16 + y.size + d ≤ sizeRange)
    (hpos : 0 < y.addr) :
    addSize (blkWord pf y) d = blkWord pf ⟨y.addr, y.size + d, y.free⟩ := by
  have h1 := toNat_le_one y.free
  have h2 := toNat_le_one pf
  rw [addSize_eq (by unfold blkWord; omega)]
  unfold blkWord
  simp only
  omega

/-- `k_mm_free` merges with the block behind. -/
theorem Opened.mergeNext {y : Blk} (h : Opened cfg s t A A₁ A₂ fl fl₁ r L mid R S n)
    (hx : x ∈ mid) (hxa : x.addr = y.addr) (hy : Covers t.mem (runStart r L) y n)
    (hyfree : y.free = true) (hmid : ∀ z ∈ mid, z = x ∨ z.free = true) :
    ∃ fl₂ mid₂ R₂ S₂ n₂ y₂,
      Opened cfg s (kMmMergeNext cfg t y.addr) A A₁ A₂ fl fl₂ r L mid₂ R₂ S₂ n₂ ∧
      Covers (kMmMergeNext cfg t y.addr).mem (runStart r L) y₂ n₂ ∧ y₂.free = true ∧
      y₂.addr = y.addr ∧ n₂.free = false ∧ x ∈ mid₂ ∧ ∀ z ∈ mid₂, z = x ∨ z.free = true := by
  have hnb := h.around.n_bounds
  have hnextB := hy.nextBlk (by omega)
  have hnlaid := (laid_append.1 h.around.laid).2.1
  have hnw := h.n_word (show 12 < 16 by norm_num)
  rw [hnlaid.word] at hnw
  have hynext : y.next = y.addr + 16 + y.size := rfl
  have hyn := hy.next
  have hya := hy.addr
  unfold kMmMergeNext
  simp only [hnextB, hnw, mmIsFree_blkWord hnlaid.aligned]
  cases hnf : n.free with
  | false =>
    rw [if_neg (by simp)]
    exact ⟨fl₁, mid, R, S, n, y, h, hy, hyfree, rfl, hnf, hx, hmid⟩
  | true =>
    rw [if_pos rfl]
    obtain ⟨R', n', S', hop, hn'f, hn'a, hmem⟩ := h.absorbNext hnf
    have hxal := mem_allBlks_of_mem_userBlks (h.around.mid_mem hx)
    have hnnext : n.next = n.addr + 16 + n.size := rfl
    have hn'b := hop.around.n_bounds
    have hw : ∀ o < 16, (kMmFreelistDelete cfg t n.addr).mem (y.addr + o) = t.mem (y.addr + o) :=
      fun o ho => hmem _ (h.around.rep.noLink hxal (by omega) (by omega) (by omega))
    have hnsize : mmGetBlkSize (kMmFreelistDelete cfg t n.addr).mem n.addr = n.size + 16 := by
      unfold mmGetBlkSize mmGetBufSize
      rw [hmem _ (h.around.rep.noLink h.around.n_mem (by omega) (by omega) (by omega)), hnw,
        blkWord_bufSize hnlaid.aligned]
      rfl
    have hgrow : addSize (blkWord (runStart r L).pfree y) (n.size + 16) =
        blkWord (runStart r L).pfree ⟨y.addr, y.size + (n.size + 16), y.free⟩ :=
      blkWord_grow (by omega) (by omega)
    rw [hnsize, hw 12 (by norm_num), hy.word, hgrow]
    have hop' := hop.write (hop.noLink (h.around.rep.noLink hxal (a := y.addr + 12) (by omega)
      (by omega) (by omega))) (by omega) (by omega)
      (blkWord (runStart r L).pfree ⟨y.addr, y.size + (n.size + 16), y.free⟩)
    refine ⟨_, mid ++ [n], R', S', n', ⟨y.addr, y.size + (n.size + 16), y.free⟩, hop',
      ⟨hya, ?_, ?_, ?_, ?_, ?_, ?_⟩, hyfree, rfl, hn'f, by simp [hx], ?_⟩
    · show y.addr + 16 + (y.size + (n.size + 16)) = n'.addr
      omega
    · show (y.size + (n.size + 16)) % 8 = 0
      have := hy.aligned
      have := hnlaid.aligned
      omega
    · show 32 ≤ y.size + (n.size + 16)
      have := hy.min_size
      omega
    · simp only [setWord_same]
    · intro hp
      simp (disch := omega) only [setWord_ne]
      rw [hw 8 (by norm_num)]
      exact hy.prev hp
    · have h0 := hw 0 (by norm_num)
      rw [Nat.add_zero] at h0
      simp (disch := omega) only [setWord_ne]
      rw [h0]
      exact hy.dye
    · intro z hz
      rcases List.mem_append.1 hz with hz | hz
      · exact hmid z hz
      · obtain rfl : z = n := by simpa using hz
        exact .inr hnf

/-- `k_mm_free` merges with the block before. -/
theorem Opened.mergePrev {y : Blk} (h : Opened cfg s t A A₁ A₂ fl fl₁ r L mid R S n)
    (hx : x ∈ mid) (hy : Covers t.mem (runStart r L) y n) (hyfree : y.free = true)
    (hmid : ∀ z ∈ mid, z = x ∨ z.free = true) :
    ∃ t₂ fl₂ L₂ mid₂ y₂, kMmMergePrev cfg t y.addr = some (y₂.addr, t₂) ∧
      Opened cfg s t₂ A A₁ A₂ fl fl₂ r L₂ mid₂ R S n ∧
      Covers t₂.mem (runStart r L₂) y₂ n ∧ y₂.free = true ∧ (runStart r L₂).pfree = false ∧
      x ∈ mid₂ ∧ ∀ z ∈ mid₂, z = x ∨ z.free = true := by
  have hnb := h.around.n_bounds
  have hynext : y.next = y.addr + 16 + y.size := rfl
  have hyn := hy.next
  have hya := hy.addr
  unfold kMmMergePrev
  rw [hy.word, mmIsPrevFree_blkWord hy.aligned]
  cases hpf : (runStart r L).pfree with
  | false =>
    rw [if_neg (by simp)]
    exact ⟨t, fl₁, L, mid, y, rfl, h, hy, hyfree, hpf, hx, hmid⟩
  | true =>
    rw [if_pos rfl]
    obtain ⟨L', p, rfl, hpfree, hcur⟩ := runStart_pfree hpf
    obtain ⟨hop, hmem⟩ := h.absorbPrev hpfree
    have hpa := mem_allBlks_of_mem_userBlks (hop.around.mid_mem (x := p) (by simp))
    have hplaid : HdrOk s.mem (runStart r L') p := hop.around.laid.1
    have hp'f : (runStart r L').pfree = false := by
      by_contra hc
      have := hplaid.apart (by simpa using hc)
      rw [hpfree] at this
      cases this
    have hlo : (runStart r (L' ++ [p])).addr = p.addr + 16 + p.size := by rw [hcur]; rfl
    have hpprev : t.mem (y.addr + 8) = p.addr := by
      rw [hy.prev hpf, hcur]
      rfl
    -- the header of `p` is the one of `s`, in `t` and after the deletion
    have hpw : ∀ o < 16, t.mem (p.addr + o) = s.mem (p.addr + o) := fun o ho =>
      h.frame _ (h.around.rep.noLink hpa (by omega) (by omega) (by omega)) (by omega)
    have hpdye : t.mem p.addr = mmFreeDye := by
      have h0 := hpw 0 (by norm_num)
      rw [Nat.add_zero] at h0
      rw [h0, hplaid.dye, hpfree]
      rfl
    have hpw' : ∀ o < 16, (kMmFreelistDelete cfg t p.addr).mem (p.addr + o) = s.mem (p.addr + o) :=
      fun o ho => by
        rw [hmem _ (h.around.rep.noLink hpa (by omega) (by omega) (by omega)), hpw o ho]
    obtain ⟨q, qs, hq⟩ : ∃ q qs, mid = q :: qs := List.exists_cons_of_ne_nil (List.ne_nil_of_mem hx)
    have hqa : q.addr = y.addr := by
      have := (laid_append.1 h.around.laid).1
      rw [hq] at this
      rw [this.1.addr, hya]
    have hqal := mem_allBlks_of_mem_userBlks (h.around.mid_mem (x := q) (by simp [hq]))
    have hysize : mmGetBlkSize (kMmFreelistDelete cfg t p.addr).mem y.addr = y.size + 16 := by
      unfold mmGetBlkSize mmGetBufSize
      rw [hmem _ (h.around.rep.noLink hqal (by omega) (by omega) (by omega)), hy.word,
        blkWord_bufSize hy.aligned]
      rfl
    have hpaddr := hplaid.addr
    have hp'b := hop.around.n_bounds
    have hgrow : addSize (blkWord false p) (y.size + 16) =
        blkWord false ⟨p.addr, p.size + (y.size + 16), p.free⟩ :=
      blkWord_grow (by omega) (by omega)
    simp only [hpprev]
    rw [if_neg (by simp [hpdye]), hysize, hpw' 12 (by norm_num), hplaid.word, hp'f, hgrow]
    have hop' := hop.write (hop.noLink (h.around.rep.noLink hpa (a := p.addr + 12) (by omega)
      (by omega) (by omega))) (by omega) (by omega)
      (blkWord false ⟨p.addr, p.size + (y.size + 16), p.free⟩)
    refine ⟨_, _, L', p :: mid, ⟨p.addr, p.size + (y.size + 16), p.free⟩, rfl, hop',
      ⟨hpaddr, ?_, ?_, ?_, ?_, ?_, ?_⟩, hpfree, hp'f, by simp [hx], ?_⟩
    · show p.addr + 16 + (p.size + (y.size + 16)) = n.addr
      omega
    · show (p.size + (y.size + 16)) % 8 = 0
      have := hy.aligned
      have := hplaid.aligned
      omega
    · show 32 ≤ p.size + (y.size + 16)
      have := hy.min_size
      omega
    · simp only [setWord_same, hp'f]
    · intro hc
      rw [hp'f] at hc
      cases hc
    · have h0 := hpw' 0 (by norm_num)
      rw [Nat.add_zero] at h0
      simp (disch := omega) only [setWord_ne]
      rw [h0]
      exact hplaid.dye
    · intro z hz
      rcases List.mem_cons.1 hz with rfl | hz
      · exact .inr hpfree
      · exact hmid z hz

/-- Filing the block that covers the run closes it. -/
theorem Opened.closeFree {y : Blk} (h : Opened cfg s t A A₁ A₂ fl fl₁ r L mid R S n)
    (hy : Covers t.mem (runStart r L) y n) (hyfree : y.free = true)
    (hpf : (runStart r L).pfree = false) (hnf : n.free = false) {t' : MmHead}
    (ht' : t' = { kMmFreelistInsert cfg t y.addr with
      mem := setWord (setWord (kMmFreelistInsert cfg t y.addr).mem (n.addr + 8) y.addr)
        (n.addr + 12) (blkWord true n) }) :
    ∃ fl', HeapRep cfg t' (A₁ ++ (r, L ++ [y] ++ R) :: A₂) fl' ∧
      Frame fl (runStart r L).addr (n.addr + 16) s.mem t'.mem ∧
      t'.fixPool = s.fixPool ∧ t'.pool = s.pool := by
  have hnb := h.around.n_bounds
  have hynext : y.next = y.addr + 16 + y.size := rfl
  have hyn := hy.next
  have hya := hy.addr
  have hmin := hy.min_size
  have hnlaid := (laid_append.1 h.around.laid).2.1
  have hfl₁ : ∀ l z, z ∈ fl₁ l → z ∈ fl l ∧ ∀ b ∈ mid, b.addr ≠ z := fun l z => (h.filed l z).1
  have hk : ∀ a, (runStart r L).addr ≤ a → a < n.addr + 16 → NoLink fl₁ a := fun a =>
    h.around.run_noLink hnf hfl₁
  obtain ⟨hl₂, hm₂⟩ := h.lists.insert (fun l => h.around.run_fresh hfl₁ (by omega) (by omega) l)
    (show y.addr % 8 = 0 by omega) (by omega)
  rw [hy.bufSize] at hl₂
  have hfix := kMmFreelistInsert_fixPool cfg t y.addr
  have hpool := kMmFreelistInsert_pool cfg t y.addr
  generalize kMmFreelistInsert cfg t y.addr = t₂ at *
  have hkf : ∀ a, (runStart r L).addr ≤ a ∧ a < n.addr + 16 ∧ a ≠ y.addr + 16 ∧ a ≠ y.addr + 20 →
      NoLink (fileBlk cfg fl₁ y.addr y.size) a :=
    fun a ha => noLink_fileBlk (hk a ha.1 ha.2.1) ha.2.2.1 ha.2.2.2
  have hrun : ∀ a, (runStart r L).addr ≤ a ∧ a < n.addr + 16 ∧ a ≠ y.addr + 16 ∧ a ≠ y.addr + 20 →
      t₂.mem a = t.mem a := fun a ha => hm₂ a (hk a ha.1 ha.2.1) ha.2.2.1 ha.2.2.2
  have k8 := hkf (n.addr + 8) (by omega)
  have k12 := hkf (n.addr + 12) (by omega)
  have hl₃ : FreelistsOk cfg t' (fileBlk cfg fl₁ y.addr y.size) := by
    rw [ht']
    exact (hl₂.write k8 _).write k12 _
  have hframe : Frame fl (runStart r L).addr (n.addr + 16) s.mem t'.mem := by
    intro a ha hout
    rw [ht']
    simp (disch := omega) only [setWord_ne]
    rw [hm₂ a (h.noLink ha) (by omega) (by omega)]
    exact h.frame a ha (by omega)
  refine ⟨fileBlk cfg fl₁ y.addr y.size, ?_, hframe, ?_, ?_⟩
  · refine h.around.splice hframe ?_ (by simpa using hmin) hl₃ ?_
    · refine ⟨⟨hya, ?_, ?_, ?_, ?_, hy.aligned, fun _ => hmin⟩, ⟨hyn.symm, ?_, ?_, ?_, fun _ => hnf,
        hnlaid.aligned, hnlaid.free_size⟩, trivial⟩
      · rw [ht']
        simp (disch := omega) only [setWord_ne]
        rw [hrun _ (by omega), hy.word]
      · intro hc
        rw [hpf] at hc
        cases hc
      · rw [ht']
        simp (disch := omega) only [setWord_ne]
        rw [hrun _ (by omega), hy.dye]
      · intro hc
        rw [hpf] at hc
        cases hc
      · rw [ht']
        simp only [setWord_same]
        show _ = blkWord y.free n
        rw [hyfree]
      · intro _
        rw [ht']
        simp (disch := omega) only [setWord_ne, setWord_same]
        rfl
      · have h0 := h.n_word (show 0 < 16 by norm_num)
        rw [Nat.add_zero] at h0
        rw [ht']
        simp (disch := omega) only [setWord_ne]
        rw [hrun _ (by omega), h0]
        exact hnlaid.dye
    · intro l a
      rw [mem_fileBlk, h.filed]
      simp only [List.mem_singleton, exists_eq_left, hyfree, true_and]
      constructor
      · rintro (⟨rfl, hlev⟩ | ha)
        · exact .inr ⟨rfl, hlev⟩
        · exact .inl ha
      · rintro (ha | ⟨rfl, hlev⟩)
        · exact .inr ha
        · exact .inl ⟨rfl, hlev⟩
  · rw [ht']
    exact hfix.trans h.fixPool
  · rw [ht']
    exact hpool.trans h.pool

/-- **Freeing** an allocated block succeeds and turns it, together with its free neighbours, into
one free block. -/
theorem Around.free (h : Around cfg s A A₁ A₂ fl r L [x] R S n) (hx : x.free = false)
    (hpool : krhinoMblkCheck s (x.addr + 16) = false) :
    ∃ s' fl' L' mid R' S' n' y, kMmFree cfg s (x.addr + 16) = some s' ∧
      Around cfg s A A₁ A₂ fl r L' mid R' S' n' ∧ x ∈ mid ∧ (∀ z ∈ mid, z = x ∨ z.free = true) ∧
      y.free = true ∧ HeapRep cfg s' (A₁ ++ (r, L' ++ [y] ++ R') :: A₂) fl' ∧
      Frame fl (runStart r L').addr (n'.addr + 16) s.mem s'.mem ∧
      s'.fixPool = s.fixPool ∧ s'.pool = s.pool := by
  obtain ⟨hxl, hnl, -⟩ := h.laid
  have hxal := mem_allBlks_of_mem_userBlks (h.mid_mem (x := x) (by simp))
  have hnb := h.n_bounds
  have hxa := hxl.addr
  have hna : n.addr = x.addr + 16 + x.size := hnl.addr
  have hmin := h.rep.min_size (h.mid_mem (x := x) (by simp))
  have hdye : s.mem x.addr = mmCorruptDye := by
    rw [hxl.dye, hx]
    rfl
  have hk : ∀ o < 16, NoLink fl (x.addr + o) := fun o ho =>
    h.rep.noLink hxal (by omega) (by omega) (by omega)
  have k0 := hk 0 (by norm_num)
  rw [Nat.add_zero] at k0
  have hset : mmSetFree (blkWord (runStart r L).pfree x) =
      blkWord (runStart r L).pfree ⟨x.addr, x.size, true⟩ := mmSetFree_blkWord hxl.aligned
  -- mark the block
  have hop₀ := (((Opened.start h hx).write k0 (by omega) (by omega) mmFreeDye).write
    (hk 4 (by norm_num)) (by omega) (by omega) 0).write (hk 12 (by norm_num)) (by omega) (by omega)
    (blkWord (runStart r L).pfree ⟨x.addr, x.size, true⟩)
  obtain ⟨m₀, hm₀⟩ : ∃ m : Words, m = setWord (setWord (setWord s.mem x.addr mmFreeDye)
      (x.addr + 4) 0) (x.addr + 12) (blkWord (runStart r L).pfree ⟨x.addr, x.size, true⟩) :=
    ⟨_, rfl⟩
  have hthis : mmGetThisBlk (x.addr + 16) = x.addr := by
    simp [mmGetThisBlk, mmlistHeadSize]
  have hfree : kMmFree cfg s (x.addr + 16) =
      (kMmMergePrev cfg (kMmMergeNext cfg
        (removesize { s with mem := m₀ } (mmGetBlkSize m₀ x.addr)) x.addr) x.addr).bind
          fun p => kMmFileFree cfg p.2 p.1 := by
    unfold kMmFree
    rw [if_neg (by omega), hpool, if_neg (by simp)]
    simp only [hthis]
    rw [if_neg (by rw [hdye]; decide), if_neg (by simp [hdye])]
    simp (disch := omega) only [setWord_ne, hxl.word, hset, ← hm₀]
    cases kMmMergePrev cfg (kMmMergeNext cfg
        (removesize { s with mem := m₀ } (mmGetBlkSize m₀ x.addr)) x.addr) x.addr with
    | none => rfl
    | some p => rfl
  have hop₁ := hop₀.removesize (mmGetBlkSize m₀ x.addr)
  simp only at hop₁
  rw [← hm₀] at hop₁
  generalize hs₁ : removesize { s with mem := m₀ } (mmGetBlkSize m₀ x.addr) = s₁ at *
  have hcov₁ : Covers s₁.mem (runStart r L) ⟨x.addr, x.size, true⟩ n := by
    refine ⟨hxa, hna.symm, hxl.aligned, hmin, ?_, ?_, ?_⟩
    · simp only [← hs₁, removesize_mem, hm₀, setWord_same]
    · intro hp
      simp (disch := omega) only [← hs₁, removesize_mem, hm₀, setWord_ne]
      exact hxl.prev hp
    · simp (disch := omega) only [← hs₁, removesize_mem, hm₀, setWord_ne, setWord_same]
      rfl
  -- merge on both sides, then file
  obtain ⟨fl₂, mid₂, R₂, S₂, n₂, y₂, hop₂, hcov₂, hy₂f, hy₂a, hn₂f, hx₂, hmid₂⟩ :=
    hop₁.mergeNext (x := x) (y := ⟨x.addr, x.size, true⟩) (by simp) rfl hcov₁ rfl (by simp)
  have hy₂a' : y₂.addr = x.addr := hy₂a
  rw [show (⟨x.addr, x.size, true⟩ : Blk).addr = x.addr from rfl] at hop₂ hcov₂
  obtain ⟨t₃, fl₃, L₃, mid₃, y₃, heq₃, hop₃, hcov₃, hy₃f, hpf₃, hx₃, hmid₃⟩ :=
    hop₂.mergePrev hx₂ hcov₂ hy₂f hmid₂
  rw [hy₂a'] at heq₃
  have hnb₃ := hop₃.around.n_bounds
  have hy₃n : y₃.next = y₃.addr + 16 + y₃.size := rfl
  have hnl₃ := (laid_append.1 hop₃.around.laid).2.1
  have hcn := hcov₃.next
  have hcm := hcov₃.min_size
  have hca := hcov₃.addr
  have hfl₃ : ∀ l z, z ∈ fl₃ l → z ∈ fl l ∧ ∀ b ∈ mid₃, b.addr ≠ z := fun l z => (hop₃.filed l z).1
  obtain ⟨-, hins⟩ := hop₃.lists.insert
    (fun l => hop₃.around.run_fresh hfl₃ (by omega) (by omega) l) (show y₃.addr % 8 = 0 by omega)
    (by omega)
  have hinsrun : ∀ a, (runStart r L₃).addr ≤ a ∧ a < n₂.addr + 16 ∧ a ≠ y₃.addr + 16 ∧ a ≠ y₃.addr + 20 →
      (kMmFreelistInsert cfg t₃ y₃.addr).mem a = t₃.mem a :=
    fun a ha => hins a (hop₃.around.run_noLink hn₂f hfl₃ ha.1 ha.2.1) ha.2.2.1 ha.2.2.2
  have hnext : mmGetNextBlk (kMmFreelistInsert cfg t₃ y₃.addr).mem y₃.addr = n₂.addr := by
    have := hcov₃.nextBlk (show n₂.addr < sizeRange by omega)
    unfold mmGetNextBlk mmGetBufSize at this ⊢
    rw [hinsrun _ (by omega)]
    exact this
  have hn0 : (kMmFreelistInsert cfg t₃ y₃.addr).mem n₂.addr = mmCorruptDye := by
    have h0 := hop₃.n_word (show 0 < 16 by norm_num)
    rw [Nat.add_zero] at h0
    rw [hinsrun _ (by omega), h0, hnl₃.dye, hn₂f]
    rfl
  have hn12 : (kMmFreelistInsert cfg t₃ y₃.addr).mem (n₂.addr + 12) =
      blkWord (cursorAfter (runStart r L₃) mid₃).pfree n₂ := by
    rw [hinsrun _ (by omega), hop₃.n_word (by norm_num), hnl₃.word]
  obtain ⟨fl', hrep, hframe, hfix, hpl⟩ := hop₃.closeFree hcov₃ hy₃f hpf₃ hn₂f rfl
  refine ⟨_, fl', L₃, mid₃, R₂, S₂, n₂, y₃, ?_, hop₃.around, hx₃, hmid₃, hy₃f, hrep, hframe, hfix,
    hpl⟩
  rw [hfree, heq₃, Option.bind_some]
  unfold kMmFileFree
  simp only [hnext, hn0]
  rw [if_neg (by simp)]
  simp (disch := omega) only [setWord_ne, hn12, mmSetPrevFree_blkWord hnl₃.aligned]

/-! ## Resizing -/

/-- The run is opened, and the header behind it may have been written too, keeping the block. -/
structure Ready (cfg : MmConfig) (s t : MmHead) (A A₁ A₂ : HeapBlks) (fl fl₁ : ℕ → List ℕ)
    (r : Region) (L mid R S : List Blk) (n : Blk) : Prop where
  around : Around cfg s A A₁ A₂ fl r L mid R S n
  lists : FreelistsOk cfg t fl₁
  filed : ∀ l y, y ∈ fl₁ l ↔ y ∈ fl l ∧ ∀ z ∈ mid, z.addr ≠ y
  frame : Frame fl (runStart r L).addr (n.addr + 16) s.mem t.mem
  n_free : n.free = false
  n_word : ∃ pf, t.mem (n.addr + 12) = blkWord pf n
  n_dye : t.mem n.addr = mmCorruptDye
  fixPool : t.fixPool = s.fixPool
  pool : t.pool = s.pool

/-- An opened heap is ready if the block behind the run is not free. -/
theorem Opened.ready (h : Opened cfg s t A A₁ A₂ fl fl₁ r L mid R S n) (hnf : n.free = false) :
    Ready cfg s t A A₁ A₂ fl fl₁ r L mid R S n := by
  have hnl := (laid_append.1 h.around.laid).2.1
  have h0 := h.n_word (show 0 < 16 by norm_num)
  rw [Nat.add_zero] at h0
  refine ⟨h.around, h.lists, h.filed, ?_, hnf, ?_, ?_, h.fixPool, h.pool⟩
  · intro a ha hout
    exact h.frame a ha (by omega)
  · exact ⟨_, by rw [h.n_word (by norm_num), hnl.word]⟩
  · rw [h0, hnl.dye, hnf]
    rfl

/-- In a heap that is ready no word of the run is a link. -/
theorem Ready.noLink (h : Ready cfg s t A A₁ A₂ fl fl₁ r L mid R S n) {a : ℕ}
    (hlo : (runStart r L).addr ≤ a) (hhi : a < n.addr + 16) : NoLink fl₁ a :=
  h.around.run_noLink h.n_free (fun l y => (h.filed l y).1) hlo hhi

/-- `k_mm_realloc` splits what the run covers into an allocated block of `newSize`
bytes and a free rest. -/
theorem Ready.reallocSplit {x₀ : Blk} (h : Ready cfg s t A A₁ A₂ fl fl₁ r L mid R S n)
    (hhead : HeadOf t.mem (runStart r L) x₀)
    (hx₀f : x₀.free = false) {newSize splitSize : ℕ} (hal : newSize % 8 = 0) (hmin : 32 ≤ newSize)
    (hsplit : 32 ≤ splitSize) (htotal : x₀.addr + 16 + newSize + 16 + splitSize = n.addr) :
    ∃ fl', HeapRep cfg (kMmReallocSplit cfg t x₀.addr n.addr newSize splitSize)
        (A₁ ++ (r, L ++ [⟨x₀.addr, newSize, false⟩, ⟨x₀.addr + 16 + newSize, splitSize, true⟩] ++ R)
          :: A₂) fl' ∧
      Frame fl (runStart r L).addr (n.addr + 16) s.mem
        (kMmReallocSplit cfg t x₀.addr n.addr newSize splitSize).mem ∧
      (kMmReallocSplit cfg t x₀.addr n.addr newSize splitSize).fixPool = s.fixPool ∧
      (kMmReallocSplit cfg t x₀.addr n.addr newSize splitSize).pool = s.pool ∧
      ∀ a, x₀.addr + 16 ≤ a → a < x₀.addr + 16 + newSize →
        (kMmReallocSplit cfg t x₀.addr n.addr newSize splitSize).mem a = t.mem a := by
  have hnb := h.around.n_bounds
  have hnl := (laid_append.1 h.around.laid).2.1
  obtain ⟨pfn, hnw⟩ := h.n_word
  obtain ⟨hx₀a, hx₀al, hx₀w, hx₀p, hx₀d⟩ := hhead
  rw [hx₀f, if_neg (by simp)] at hx₀d
  obtain ⟨g', hg'⟩ : ∃ b : Blk, b = ⟨x₀.addr, newSize, false⟩ := ⟨_, rfl⟩
  obtain ⟨w, hw⟩ : ∃ b : Blk, b = ⟨x₀.addr + 16 + newSize, splitSize, true⟩ := ⟨_, rfl⟩
  rw [← hg', ← hw]
  have hga' : g'.addr = x₀.addr := by rw [hg']
  have hgs' : g'.size = newSize := by rw [hg']
  have hgf' : g'.free = false := by rw [hg']
  have hwa : w.addr = x₀.addr + 16 + newSize := by rw [hw]
  have hws : w.size = splitSize := by rw [hw]
  have hwf : w.free = true := by rw [hw]
  have hnal : n.addr % 8 = 0 := (h.around.rep.blk_bounds h.around.n_mem).2.2.1
  have hgal' : g'.size % 8 = 0 := by omega
  have hwal : w.size % 8 = 0 := by omega
  generalize hpf : (runStart r L).pfree = pf at *
  have hkeep : mmKeepPrevStat newSize (blkWord pf x₀) = blkWord pf g' := by
    rw [hg']
    exact mmKeepPrevStat_blkWord hx₀al newSize
  have hww : splitSize + 1 = blkWord false w := by
    simp [blkWord, hw]
  have hnewB : ∀ m, mmGetNextBlk (setWord m (x₀.addr + 12) (blkWord pf g')) x₀.addr = w.addr := by
    intro m
    unfold mmGetNextBlk mmGetBufSize
    rw [setWord_same, blkWord_bufSize hgal', addSize_eq (by simp only [mmlistHeadSize]; omega)]
    simp only [mmlistHeadSize]
    omega
  obtain ⟨m₂, hm₂⟩ : ∃ m : Words, m =
      setWord (setWord (setWord (setWord (setWord (setWord (setWord t.mem (x₀.addr + 12)
        (blkWord pf g')) (w.addr + 8) x₀.addr) (w.addr + 12) (blkWord false w)) w.addr mmFreeDye)
        (w.addr + 4) 0) (n.addr + 8) w.addr) (n.addr + 12) (blkWord true n) := ⟨_, rfl⟩
  have heq : kMmReallocSplit cfg t x₀.addr n.addr newSize splitSize =
      kMmFreelistInsert cfg { t with mem := m₂ } w.addr := by
    unfold kMmReallocSplit
    simp only [hx₀w, hkeep, hnewB]
    simp (disch := omega) only [setWord_ne, hnw, mmSetPrevFree_blkWord hnl.aligned, hww, ← hm₂]
  rw [heq]
  have hl₂ : FreelistsOk cfg { t with mem := m₂ } fl₁ := by
    rw [hm₂]
    have k1 := h.noLink (a := x₀.addr + 12) (by omega) (by omega)
    have k2 := h.noLink (a := w.addr + 8) (by omega) (by omega)
    have k3 := h.noLink (a := w.addr + 12) (by omega) (by omega)
    have k4 := h.noLink (a := w.addr) (by omega) (by omega)
    have k5 := h.noLink (a := w.addr + 4) (by omega) (by omega)
    have k6 := h.noLink (a := n.addr + 8) (by omega) (by omega)
    have k7 := h.noLink (a := n.addr + 12) (by omega) (by omega)
    exact ((((((h.lists.write k1 _).write k2 _).write k3 _).write k4 _).write k5 _).write k6 _).write
      k7 _
  have hbuf₂ : mmGetBufSize m₂ w.addr = w.size := by
    unfold mmGetBufSize
    rw [hm₂]
    simp (disch := omega) only [setWord_ne, setWord_same]
    exact blkWord_bufSize hwal
  obtain ⟨hl₃, hm₃⟩ := hl₂.insert
    (fun l => h.around.run_fresh (fun l y => (h.filed l y).1) (by omega) (by omega) l)
    (show w.addr % 8 = 0 by omega) (by omega)
  have hfix := kMmFreelistInsert_fixPool cfg { t with mem := m₂ } w.addr
  have hpool := kMmFreelistInsert_pool cfg { t with mem := m₂ } w.addr
  generalize kMmFreelistInsert cfg { t with mem := m₂ } w.addr = s₃ at *
  rw [hbuf₂] at hl₃
  simp only at hm₃
  have hrun : ∀ a, (runStart r L).addr ≤ a ∧ a < n.addr + 16 ∧ a ≠ w.addr + 16 ∧ a ≠ w.addr + 20 →
      s₃.mem a = m₂ a := fun a ha => hm₃ a (h.noLink ha.1 ha.2.1) ha.2.2.1 ha.2.2.2
  have hframe : Frame fl (runStart r L).addr (n.addr + 16) s.mem s₃.mem := by
    intro a ha hout
    have ha₁ : NoLink fl₁ a := ha.mono (fun l y hy => ((h.filed l y).1 hy).1)
    rw [hm₃ a ha₁ (by omega) (by omega), hm₂]
    simp (disch := omega) only [setWord_ne]
    exact h.frame a ha hout
  have hkept : ∀ a, x₀.addr + 16 ≤ a → a < x₀.addr + 16 + newSize → s₃.mem a = t.mem a := by
    intro a hlo hhi
    rw [hrun a (by omega), hm₂]
    simp (disch := omega) only [setWord_ne]
  refine ⟨fileBlk cfg fl₁ w.addr w.size, ?_, hframe, hfix.trans h.fixPool, hpool.trans h.pool, hkept⟩
  have hxm : s₃.mem (g'.addr + 12) = blkWord pf g' ∧ (pf = true → s₃.mem (g'.addr + 8) = (runStart r L).prev) ∧
      s₃.mem g'.addr = mmCorruptDye := by
    rw [hga', hrun _ (by omega), hrun _ (by omega), hrun _ (by omega), hm₂]
    simp (disch := omega) only [setWord_ne, setWord_same]
    exact ⟨trivial, fun hp => hx₀p (hpf ▸ hp), hx₀d⟩
  have hwm : s₃.mem (w.addr + 12) = blkWord false w ∧ s₃.mem w.addr = mmFreeDye := by
    rw [hrun _ (by omega), hrun _ (by omega), hm₂]
    simp (disch := omega) only [setWord_ne, setWord_same, and_self]
  have hnm : s₃.mem (n.addr + 12) = blkWord true n ∧ s₃.mem (n.addr + 8) = w.addr ∧
      s₃.mem n.addr = mmCorruptDye := by
    rw [hrun _ (by omega), hrun _ (by omega), hrun _ (by omega), hm₂]
    simp (disch := omega) only [setWord_ne, setWord_same]
    exact ⟨trivial, trivial, h.n_dye⟩
  subst hpf
  exact h.around.spliceSplit hframe ⟨by omega, hgf', hgal', by omega⟩
    ⟨by simp only [Blk.next]; omega, hwf, hwal, by omega⟩ ⟨by simp only [Blk.next]; omega, h.n_free⟩ hxm hwm hnm
    hl₃ h.filed

/-- From `s`, which represents `A`, to `s'` the run `mid` is replaced by `mid'`; nothing else of
the heap changes. -/
def Replaces (cfg : MmConfig) (s : MmHead) (A : HeapBlks) (fl : ℕ → List ℕ) (mid mid' : List Blk)
    (s' : MmHead) : Prop :=
  ∃ A₁ A₂ r L R S n fl', Around cfg s A A₁ A₂ fl r L mid R S n ∧
    HeapRep cfg s' (A₁ ++ (r, L ++ mid' ++ R) :: A₂) fl' ∧
    Frame fl (runStart r L).addr (n.addr + 16) s.mem s'.mem ∧
    s'.fixPool = s.fixPool ∧ s'.pool = s.pool

/-- Counting an allocation leaves the heap. -/
theorem HeapRep.addsize (h : HeapRep cfg s A fl) (size req : ℕ) :
    HeapRep cfg (addsize cfg s size req) A fl :=
  ⟨h.layout, h.lists.addsize size req, h.filed⟩

/-- Counting a block that is given back leaves it. -/
theorem HeapRep.removesize (h : HeapRep cfg s A fl) (size : ℕ) :
    HeapRep cfg (removesize s size) A fl :=
  ⟨h.layout, h.lists.removesize size, h.filed⟩

/-- From `s` to `s'` the allocated block `x` is resized in place to `newSize` bytes, or to a little
more where the rest would be too small for a block. -/
def Resizes (cfg : MmConfig) (s : MmHead) (A : HeapBlks) (fl : ℕ → List ℕ) (x : Blk) (newSize : ℕ)
    (s' : MmHead) : Prop :=
  ∃ mid x' rest, x ∈ mid ∧ (∀ z ∈ mid, z = x ∨ z.free = true) ∧
    Replaces cfg s A fl mid (x' :: rest) s' ∧ x'.addr = x.addr ∧ x'.free = false ∧
    (newSize ≤ x'.size ∧ x'.size < newSize + 48) ∧ ∀ z ∈ rest, z.free = true

/-- `k_mm_realloc` of a block that is large enough. What stays of the payload is not
touched. -/
theorem Around.shrink (h : Around cfg s A A₁ A₂ fl r L [x] R S n) (hx : x.free = false)
    (req : ℕ) {newSize : ℕ} (hal : newSize % 8 = 0) (hmin : 32 ≤ newSize) (hle : newSize ≤ x.size) :
    Resizes cfg s A fl x newSize (kMmShrink cfg s x.addr newSize req) ∧
      ∀ a, x.addr + 16 ≤ a → a < x.addr + 16 + newSize →
        (kMmShrink cfg s x.addr newSize req).mem a = s.mem a := by
  obtain ⟨hxl, hnl, -⟩ := h.laid
  have hxal := mem_allBlks_of_mem_userBlks (h.mid_mem (x := x) (by simp))
  have hnb := h.n_bounds
  have hxa := hxl.addr
  have hna : n.addr = x.addr + 16 + x.size := hnl.addr
  have hxn : x.next = x.addr + 16 + x.size := rfl
  have hnextB := hxl.nextBlk (by omega)
  have hnw : s.mem (n.addr + 12) = blkWord x.free n := hnl.word
  have hop := (Opened.start h hx).removesize (mmGetBlkSize s.mem x.addr)
  unfold kMmShrink
  simp only [hxl.bufSize, hnextB, removesize_mem]
  rw [show x.next = n.addr from hna.symm, hnw, mmIsFree_blkWord hnl.aligned]
  obtain ⟨t, ht⟩ : ∃ t, t = removesize s (mmGetBlkSize s.mem x.addr) := ⟨_, rfl⟩
  have htm : t.mem = s.mem := by rw [ht]; rfl
  rw [← ht] at hop ⊢
  cases hnf : n.free with
  | true =>
    obtain ⟨R', n', S', hop', hn'f, hn'a, hmem⟩ := hop.absorbNext hnf
    have hnn : n.next = n.addr + 16 + n.size := rfl
    have hn'b := hop'.around.n_bounds
    have hnlt := h.rep.blk_bounds h.n_mem
    have htn := hop.n_word (show 12 < 16 by norm_num)
    have hn12 : (kMmFreelistDelete cfg t n.addr).mem (n.addr + 12) = blkWord x.free n := by
      rw [hmem _ (h.rep.noLink h.n_mem (by omega) (by omega) (by omega)), htn, hnw]
    have hnsize : mmGetBlkSize (kMmFreelistDelete cfg t n.addr).mem n.addr = n.size + 16 := by
      unfold mmGetBlkSize mmGetBufSize
      rw [hn12, blkWord_bufSize hnl.aligned]
      rfl
    have hnnext : mmGetNextBlk (kMmFreelistDelete cfg t n.addr).mem n.addr = n'.addr := by
      unfold mmGetNextBlk mmGetBufSize
      rw [hn12, blkWord_bufSize hnl.aligned,
        addSize_eq (by simp only [mmlistHeadSize]; omega)]
      simp only [mmlistHeadSize]
      omega
    have hnmin := hnl.free_size hnf
    have htotal : addSize x.size (n.size + 16) = x.size + (n.size + 16) :=
      addSize_eq (by omega)
    have hxw : ∀ o < 16, (kMmFreelistDelete cfg t n.addr).mem (x.addr + o) = s.mem (x.addr + o) := by
      intro o ho
      rw [hmem _ (h.rep.noLink hxal (by omega) (by omega) (by omega)), htm]
    simp only [if_true, hnsize, hnnext, htotal, mmlistHeadSize, mmMinSize]
    rw [if_pos (by omega)]
    obtain ⟨fl', hrep, hframe, hfix, hpool, hkept⟩ := (hop'.ready hn'f).reallocSplit
      (hxl.headOf hxw) hx hal hmin (show 32 ≤ x.size + (n.size + 16) - newSize - 16 by omega)
      (by omega)
    refine ⟨⟨[x, n], ⟨x.addr, newSize, false⟩, [⟨x.addr + 16 + newSize, _, true⟩], by simp, ?_,
      ⟨A₁, A₂, r, L, R', S', n', fl', hop'.around, hrep.addsize _ _, hframe, hfix, hpool⟩, rfl, rfl,
      ⟨le_refl _, by simp⟩, by simp⟩, ?_⟩
    · intro z hz
      rcases List.mem_cons.1 hz with rfl | hz
      · exact .inl rfl
      · obtain rfl : z = n := by simpa using hz
        exact .inr hnf
    · intro a hlo hhi
      have hdel : (kMmFreelistDelete cfg t n.addr).mem a = s.mem a := by
        rw [hmem a (h.rep.noLink_used hxal hx (by omega) (by omega)), htm]
      exact (hkept a hlo hhi).trans hdel
  | false =>
    simp only [Bool.false_eq_true, if_false, mmlistHeadSize, mmMinSize]
    by_cases hroom : newSize + 16 + 32 ≤ x.size
    · rw [if_pos hroom]
      obtain ⟨fl', hrep, hframe, hfix, hpool, hkept⟩ := (hop.ready hnf).reallocSplit
        (hxl.headOf (fun o _ => by rw [htm])) hx hal hmin
        (show 32 ≤ x.size - newSize - 16 by omega) (by omega)
      refine ⟨⟨[x], ⟨x.addr, newSize, false⟩, [⟨x.addr + 16 + newSize, _, true⟩], by simp, by simp,
        ⟨A₁, A₂, r, L, R, S, n, fl', h, hrep.addsize _ _, hframe, hfix, hpool⟩, rfl, rfl,
        ⟨le_refl _, by simp⟩, by simp⟩, ?_⟩
      intro a hlo hhi
      exact (hkept a hlo hhi).trans (congrFun htm a)
    · rw [if_neg hroom, ht]
      refine ⟨⟨[x], x, [], by simp, by simp, ⟨A₁, A₂, r, L, R, S, n, fl, h, ?_, ?_, rfl, rfl⟩, rfl,
        hx, ⟨hle, by omega⟩, by simp⟩, fun _ _ _ => rfl⟩
      · rw [← h.blks]
        exact (h.rep.removesize _).addsize _ _
      · exact fun _ _ _ => rfl

/-- The header behind the run is rewritten and still describes `n`. -/
theorem Ready.writeHeader (h : Ready cfg s t A A₁ A₂ fl fl₁ r L mid R S n) (v : ℕ) (pf : Bool) :
    Ready cfg s
      { t with mem := setWord (setWord t.mem (n.addr + 8) v) (n.addr + 12) (blkWord pf n) }
      A A₁ A₂ fl fl₁ r L mid R S n := by
  have hnb := h.around.n_bounds
  have hle := (laid_append.1 h.around.laid).1.bounds.1
  have k8 := h.noLink (a := n.addr + 8) (by omega) (by omega)
  have k12 := h.noLink (a := n.addr + 12) (by omega) (by omega)
  refine ⟨h.around, (h.lists.write k8 v).write k12 _, h.filed, ?_, h.n_free, ⟨pf, ?_⟩, ?_,
    h.fixPool, h.pool⟩
  · intro a ha hout
    simp (disch := omega) only [setWord_ne]
    exact h.frame a ha hout
  · simp only [setWord_same]
  · simp (disch := omega) only [setWord_ne]
    exact h.n_dye

/-- One allocated block that covers the run closes it. -/
theorem Ready.closeAlloc {y : Blk} (h : Ready cfg s t A A₁ A₂ fl fl₁ r L mid R S n)
    (hy : HeadOf t.mem (runStart r L) y) (hyf : y.free = false) (hnext : y.next = n.addr)
    (hmin : 32 ≤ y.size) (hnw : t.mem (n.addr + 12) = blkWord false n) :
    HeapRep cfg t (A₁ ++ (r, L ++ [y] ++ R) :: A₂) fl₁ := by
  have hnl := (laid_append.1 h.around.laid).2.1
  refine h.around.splice h.frame ?_ ?_ h.lists ?_
  · refine ⟨⟨hy.addr, hy.word, hy.prev, hy.dye, fun _ => hyf, hy.aligned, ?_⟩,
      ⟨hnext.symm, ?_, ?_, ?_, fun _ => h.n_free, hnl.aligned, hnl.free_size⟩, trivial⟩
    · intro hc
      rw [hyf] at hc
      cases hc
    · rw [hnw]
      show _ = blkWord y.free n
      rw [hyf]
    · intro hc
      have hc' : y.free = true := hc
      rw [hyf] at hc'
      cases hc'
    · rw [h.n_dye, h.n_free]
      rfl
  · intro z hz
    obtain rfl : z = y := by simpa using hz
    exact hmin
  · intro l a
    rw [h.filed]
    simp [hyf]

/-- `k_mm_realloc` into the free block behind. The payload is not touched. -/
theorem Around.enlarge (h : Around cfg s A A₁ A₂ fl r L [x] R S n) (hx : x.free = false)
    (hnf : n.free = true) (req : ℕ) {newSize : ℕ} (hal : newSize % 8 = 0) (hmin : 32 ≤ newSize)
    (hle : newSize ≤ x.size + (n.size + 16)) :
    Resizes cfg s A fl x newSize (kMmEnlarge cfg s x.addr newSize req) ∧
      ∀ a, x.addr + 16 ≤ a → a < x.next → x.size ≤ newSize →
        (kMmEnlarge cfg s x.addr newSize req).mem a = s.mem a := by
  obtain ⟨hxl, hnl, -⟩ := h.laid
  have hxal := mem_allBlks_of_mem_userBlks (h.mid_mem (x := x) (by simp))
  have hnb := h.n_bounds
  have hxa := hxl.addr
  have hna : n.addr = x.addr + 16 + x.size := hnl.addr
  have hxn : x.next = x.addr + 16 + x.size := rfl
  have hnextB := hxl.nextBlk (by omega)
  have hnw : s.mem (n.addr + 12) = blkWord x.free n := hnl.word
  have hop := (Opened.start h hx).removesize (mmGetBlkSize s.mem x.addr)
  have hnal := hnl.aligned
  have hxal8 := hxl.aligned
  unfold kMmEnlarge
  simp only [hnextB]
  rw [show x.next = n.addr from hna.symm]
  obtain ⟨t, ht⟩ : ∃ t, t = removesize s (mmGetBlkSize s.mem x.addr) := ⟨_, rfl⟩
  have htm : t.mem = s.mem := by rw [ht]; rfl
  rw [← ht] at hop ⊢
  obtain ⟨R', n', S', hop', hn'f, hn'a, hmem⟩ := hop.absorbNext hnf
  have hnn : n.next = n.addr + 16 + n.size := rfl
  have hn'b := hop'.around.n_bounds
  have hxw : ∀ o < 16, (kMmFreelistDelete cfg t n.addr).mem (x.addr + o) = s.mem (x.addr + o) := by
    intro o ho
    rw [hmem _ (h.rep.noLink hxal (by omega) (by omega) (by omega)), htm]
  have hnsize : mmGetBlkSize (kMmFreelistDelete cfg t n.addr).mem n.addr = n.size + 16 := by
    unfold mmGetBlkSize mmGetBufSize
    rw [hmem _ (h.rep.noLink h.n_mem (by omega) (by omega) (by omega)), htm, hnw,
      blkWord_bufSize hnl.aligned]
    rfl
  have hxp : ∀ a, x.addr + 16 ≤ a → a < x.next →
      (kMmFreelistDelete cfg t n.addr).mem a = s.mem a := by
    intro a hlo hhi
    rw [hmem a (h.rep.noLink_used hxal hx (by omega) hhi), htm]
  generalize kMmFreelistDelete cfg t n.addr = t₁ at hop' hxw hxp hnsize ⊢
  -- the block that covers both
  obtain ⟨y, hy⟩ : ∃ b : Blk, b = ⟨x.addr, x.size + (n.size + 16), x.free⟩ := ⟨_, rfl⟩
  have hya : y.addr = x.addr := by rw [hy]
  have hys : y.size = x.size + (n.size + 16) := by rw [hy]
  have hyf : y.free = false := by rw [hy, ← hx]
  have hyn : y.next = y.addr + 16 + y.size := rfl
  have hgrow : addSize (t₁.mem (x.addr + 12)) (n.size + 16) = blkWord (runStart r L).pfree y := by
    rw [hxw 12 (by norm_num), hxl.word, hy]
    exact blkWord_grow (by omega) (by omega)
  have hop₂ := hop'.write (hop'.noLink (h.rep.noLink hxal (a := x.addr + 12) (by omega) (by omega)
    (by omega))) (by omega) (by omega) (blkWord (runStart r L).pfree y)
  have hn'w := hop'.n_word (show 12 < 16 by norm_num)
  have hn'l := (laid_append.1 hop'.around.laid).2.1
  rw [hn'l.word] at hn'w
  have hcover : mmGetNextBlk (setWord t₁.mem (x.addr + 12) (blkWord (runStart r L).pfree y)) x.addr =
      n'.addr := by
    unfold mmGetNextBlk mmGetBufSize
    rw [setWord_same, blkWord_bufSize (by omega), addSize_eq (by simp only [mmlistHeadSize]; omega)]
    simp only [mmlistHeadSize]
    omega
  have hrd := (hop₂.ready hn'f).writeHeader x.addr false
  simp only [hnsize, hgrow, hcover]
  simp (disch := omega) only [setWord_ne, hn'w, mmClearPrevFree_blkWord hn'l.aligned]
  simp only at hrd
  obtain ⟨m₂, hm₂⟩ : ∃ m : Words, m = setWord (setWord (setWord t₁.mem (x.addr + 12)
    (blkWord (runStart r L).pfree y)) (n'.addr + 8) x.addr) (n'.addr + 12) (blkWord false n') :=
    ⟨_, rfl⟩
  rw [← hm₂] at hrd ⊢
  have hhead : HeadOf m₂ (runStart r L) y := by
    have h0 := hxw 0 (by norm_num)
    rw [Nat.add_zero] at h0
    refine ⟨by omega, by omega, ?_, ?_, ?_⟩
    · rw [hm₂, hya]
      simp (disch := omega) only [setWord_ne, setWord_same]
    · intro hp
      rw [hm₂, hya]
      simp (disch := omega) only [setWord_ne]
      rw [hxw 8 (by norm_num)]
      exact hxl.prev hp
    · rw [hm₂, hya, hyf]
      simp (disch := omega) only [setWord_ne]
      rw [h0, hxl.dye, hx]
  have hbuf : mmGetBufSize m₂ x.addr = y.size := by
    rw [← hya]
    unfold mmGetBufSize
    rw [hhead.word, blkWord_bufSize hhead.aligned]
  have hmid : ∀ z ∈ [x, n], z = x ∨ z.free = true := by
    intro z hz
    rcases List.mem_cons.1 hz with rfl | hz
    · exact .inl rfl
    · obtain rfl : z = n := by simpa using hz
      exact .inr hnf
  have hkept₂ : ∀ a, x.addr + 16 ≤ a → a < x.next → m₂ a = s.mem a := by
    intro a hlo hhi
    rw [hm₂]
    simp (disch := omega) only [setWord_ne]
    exact hxp a hlo hhi
  simp only [hbuf, mmlistHeadSize, mmMinSize]
  by_cases hroom : newSize + 16 + 32 ≤ y.size
  · rw [if_pos hroom]
    obtain ⟨fl', hrep, hframe, hfix, hpool, hkept⟩ := hrd.reallocSplit hhead hyf hal hmin
      (show 32 ≤ y.size - newSize - 16 by omega) (by omega)
    rw [hya] at hrep hframe hfix hpool hkept
    refine ⟨⟨[x, n], ⟨x.addr, newSize, false⟩, [⟨x.addr + 16 + newSize, _, true⟩], by simp, hmid,
      ⟨A₁, A₂, r, L, R', S', n', fl', hop'.around, hrep.addsize _ _, hframe, hfix, hpool⟩, rfl, rfl,
      ⟨le_refl _, by simp⟩, by simp⟩, ?_⟩
    intro a hlo hhi hgrows
    exact (hkept a hlo (by omega)).trans (hkept₂ a hlo (by omega))
  · rw [if_neg hroom]
    have hrep := hrd.closeAlloc hhead hyf (by omega) (by omega) (by
      rw [hm₂]
      simp only [setWord_same])
    exact ⟨⟨[x, n], y, [], by simp, hmid,
      ⟨A₁, A₂, r, L, R', S', n', _, hop'.around, hrep.addsize _ _, hrd.frame, hrd.fixPool,
        hrd.pool⟩, hya, hyf, ⟨by omega, by omega⟩, by simp⟩, fun a hlo _ _ => hkept₂ a hlo (by omega)⟩

end Around

end GenieSdk.Analysis
