import GenieSdk.Analysis.MmFreelist

/-!
# The block layout of the heap

A region handed to the heap is tiled by blocks, from the block of the region info to the end
block of size zero. A `Cursor` carries what a block's header says about its predecessor: where
it is and whether it is free. `Laid` follows the headers of consecutive blocks.

Every operation of the allocator rewrites the headers of a short run of neighbouring blocks and
some free-list links. `LayoutOk.splice` is the rule for all of them: if nothing else changes and
the new run has correct headers, the whole heap is laid out again.
-/

set_option autoImplicit false

namespace GenieSdk.Analysis

open GenieSdk.Lib GenieSdk.Model

/-- A block: its header's address, its buffer size and whether it is free. -/
structure Blk where
  addr : ℕ
  size : ℕ
  free : Bool
  deriving DecidableEq

structure Cursor where
  prev : ℕ
  pfree : Bool
  addr : ℕ

def Blk.next (x : Blk) : ℕ := x.addr + 16 + x.size

def Blk.cursor (x : Blk) : Cursor := ⟨x.addr, x.free, x.next⟩

/-- The `buf_size` word of a block whose predecessor is free or not. -/
def blkWord (pfree : Bool) (x : Blk) : ℕ := x.size + x.free.toNat + 2 * pfree.toNat

/-- The header of `x`, behind the block that the cursor describes. -/
structure HdrOk (m : Words) (c : Cursor) (x : Blk) : Prop where
  addr : x.addr = c.addr
  word : m (x.addr + 12) = blkWord c.pfree x
  prev : c.pfree = true → m (x.addr + 8) = c.prev
  dye : m x.addr = if x.free then mmFreeDye else mmCorruptDye
  apart : c.pfree = true → x.free = false
  aligned : x.size % 8 = 0
  free_size : x.free = true → 32 ≤ x.size

def Laid (m : Words) : Cursor → List Blk → Prop
  | _, [] => True
  | c, x :: xs => HdrOk m c x ∧ Laid m x.cursor xs

def cursorAfter : Cursor → List Blk → Cursor
  | c, [] => c
  | _, x :: xs => cursorAfter x.cursor xs

/-- The cursor behind two lists of blocks. -/
theorem cursorAfter_append (c : Cursor) (xs ys : List Blk) :
    cursorAfter c (xs ++ ys) = cursorAfter (cursorAfter c xs) ys := by
  induction xs generalizing c with
  | nil => rfl
  | cons x xs ih => exact ih x.cursor

/-- Two lists of blocks lie one behind the other. -/
theorem laid_append {m : Words} {c : Cursor} {xs ys : List Blk} :
    Laid m c (xs ++ ys) ↔ Laid m c xs ∧ Laid m (cursorAfter c xs) ys := by
  induction xs generalizing c with
  | nil => simp [Laid, cursorAfter]
  | cons x xs ih => simp [Laid, cursorAfter, ih, and_assoc]

/-- Consecutive blocks stay between the cursor and the end of the run. -/
theorem Laid.bounds {m : Words} {c : Cursor} {xs : List Blk} (h : Laid m c xs) :
    c.addr ≤ (cursorAfter c xs).addr ∧
      ∀ x ∈ xs, c.addr ≤ x.addr ∧ x.next ≤ (cursorAfter c xs).addr := by
  induction xs generalizing c with
  | nil => simp [cursorAfter]
  | cons x xs ih =>
    obtain ⟨hx, hrest⟩ := h
    obtain ⟨hle, hall⟩ := ih hrest
    have hcur : x.cursor.addr = x.addr + 16 + x.size := rfl
    have hnext : x.next = x.addr + 16 + x.size := rfl
    have haddr := hx.addr
    have hafter : cursorAfter c (x :: xs) = cursorAfter x.cursor xs := rfl
    rw [hafter]
    refine ⟨by omega, ?_⟩
    intro y hy
    rcases List.mem_cons.1 hy with rfl | hy
    · omega
    · have := hall y hy
      omega

/-- Blocks that start aligned are aligned all along. -/
theorem Laid.aligned {m : Words} {c : Cursor} {xs : List Blk} (h : Laid m c xs)
    (hc : c.addr % 8 = 0) :
    (cursorAfter c xs).addr % 8 = 0 ∧ ∀ x ∈ xs, x.addr % 8 = 0 ∧ x.size % 8 = 0 := by
  induction xs generalizing c with
  | nil => simpa [cursorAfter] using hc
  | cons x xs ih =>
    obtain ⟨hx, hrest⟩ := h
    have hcur : x.cursor.addr = x.addr + 16 + x.size := rfl
    have haddr := hx.addr
    have hal := hx.aligned
    obtain ⟨hend, hall⟩ := ih hrest (by omega)
    refine ⟨hend, ?_⟩
    intro y hy
    rcases List.mem_cons.1 hy with rfl | hy
    · omega
    · exact hall y hy

/-- The layout reads only header words. -/
theorem Laid.congr {m m' : Words} {c : Cursor} {xs : List Blk} (h : Laid m c xs)
    (hmem : ∀ x ∈ xs, ∀ o < 16, m' (x.addr + o) = m (x.addr + o)) : Laid m' c xs := by
  induction xs generalizing c with
  | nil => trivial
  | cons x xs ih =>
    obtain ⟨hx, hrest⟩ := h
    have hw := hmem x (by simp)
    refine ⟨⟨hx.addr, ?_, ?_, ?_, hx.apart, hx.aligned, hx.free_size⟩, ?_⟩
    · rw [hw 12 (by norm_num)]
      exact hx.word
    · rw [hw 8 (by norm_num)]
      exact hx.prev
    · have := hw 0 (by norm_num)
      rw [Nat.add_zero] at this
      rw [this]
      exact hx.dye
    · exact ih hrest (fun y hy => hmem y (List.mem_cons_of_mem _ hy))

/-! ## Reading a `buf_size` word -/

section Word

variable {x : Blk} {pf : Bool}

/-- A flag is one bit. -/
theorem toNat_le_one (b : Bool) : b.toNat ≤ 1 := Bool.toNat_le b

/-- The size is read from the word as it was written. -/
theorem blkWord_bufSize (h : x.size % 8 = 0) : blkWord pf x / 8 * 8 = x.size := by
  have := toNat_le_one x.free
  have := toNat_le_one pf
  unfold blkWord
  omega

/-- So is the flag of a free block. -/
theorem mmIsFree_blkWord (h : x.size % 8 = 0) : mmIsFree (blkWord pf x) = x.free := by
  unfold mmIsFree blkWord
  cases x.free <;> cases pf <;> simp <;> omega

/-- And the flag of a free block before it. -/
theorem mmIsPrevFree_blkWord (h : x.size % 8 = 0) : mmIsPrevFree (blkWord pf x) = pf := by
  unfold mmIsPrevFree blkWord
  cases x.free <;> cases pf <;> simp <;> omega

/-- Setting the flag gives the word of a free block. -/
theorem mmSetFree_blkWord (h : x.size % 8 = 0) :
    mmSetFree (blkWord pf x) = blkWord pf { x with free := true } := by
  unfold mmSetFree blkWord
  cases x.free <;> cases pf <;> simp <;> omega

/-- Clearing it gives the word of a block in use. -/
theorem mmClearFree_blkWord (h : x.size % 8 = 0) :
    mmClearFree (blkWord pf x) = blkWord pf { x with free := false } := by
  unfold mmClearFree blkWord
  cases x.free <;> cases pf <;> simp <;> omega

/-- Setting the other flag gives the word of a block behind a free one. -/
theorem mmSetPrevFree_blkWord (h : x.size % 8 = 0) :
    mmSetPrevFree (blkWord pf x) = blkWord true x := by
  unfold mmSetPrevFree blkWord
  cases x.free <;> cases pf <;> simp <;> omega

/-- Clearing it gives the word of a block behind one in use. -/
theorem mmClearPrevFree_blkWord (h : x.size % 8 = 0) :
    mmClearPrevFree (blkWord pf x) = blkWord false x := by
  unfold mmClearPrevFree blkWord
  cases x.free <;> cases pf <;> simp <;> omega

/-- A new size keeps the flag of the block before. -/
theorem mmKeepPrevStat_blkWord (h : x.size % 8 = 0) (size : ℕ) :
    mmKeepPrevStat size (blkWord pf x) = blkWord pf ⟨x.addr, size, false⟩ := by
  unfold mmKeepPrevStat blkWord
  cases x.free <;> cases pf <;> simp <;> omega

end Word

/-- The size in a header. -/
theorem HdrOk.bufSize {m : Words} {c : Cursor} {x : Blk} (h : HdrOk m c x) :
    mmGetBufSize m x.addr = x.size := by
  unfold mmGetBufSize
  rw [h.word, blkWord_bufSize h.aligned]

/-- The next block, from a header. -/
theorem HdrOk.nextBlk {m : Words} {c : Cursor} {x : Blk} (h : HdrOk m c x)
    (hlt : x.next < sizeRange) : mmGetNextBlk m x.addr = x.next := by
  unfold mmGetNextBlk
  rw [h.bufSize, addSize_eq]
  · rfl
  · exact hlt

/-! ## Regions -/

/-- Memory `[lo, hi)` handed to the heap, of which the blocks cover `[start, stop)`. -/
structure Region where
  lo : ℕ
  hi : ℕ
  start : ℕ
  stop : ℕ

structure Region.Wf (r : Region) : Prop where
  lo_pos : 0 < r.lo
  lo_le : r.lo ≤ r.start
  room : r.start + 88 ≤ r.stop
  stop_le : r.stop ≤ r.hi
  hi_le : r.hi ≤ sizeRange
  start_al : r.start % 8 = 0
  stop_al : r.stop % 8 = 0

/-- The block of the region info. -/
def Region.first (r : Region) : Blk := ⟨r.start, 8, false⟩

/-- The end block, which stops merging. -/
def Region.last (r : Region) : Blk := ⟨r.stop - 16, 0, false⟩

/-- All blocks of the region, with the user blocks `bs` between the two fixed ones. -/
def Region.blks (r : Region) (bs : List Blk) : List Blk := r.first :: (bs ++ [r.last])

/-- Before the first block. -/
def Region.cursor (r : Region) : Cursor := ⟨0, false, r.start⟩

structure RegionOk (m : Words) (r : Region) (bs : List Blk) : Prop where
  wf : r.Wf
  laid : Laid m r.cursor (r.blks bs)
  min_size : ∀ x ∈ bs, 32 ≤ x.size
  end_word : m (r.start + 16) = r.stop - 16

/-- The regions with their user blocks. -/
abbrev HeapBlks := List (Region × List Blk)

def allBlks (A : HeapBlks) : List Blk := A.flatMap (fun p => p.1.blks p.2)

def userBlks (A : HeapBlks) : List Blk := A.flatMap (fun p => p.2)

def RegionsApart (p q : Region × List Blk) : Prop := p.1.hi ≤ q.1.lo ∨ q.1.hi ≤ p.1.lo

instance : Std.Symm RegionsApart := ⟨fun _ _ h => h.symm⟩

structure LayoutOk (m : Words) (A : HeapBlks) : Prop where
  region : ∀ p ∈ A, RegionOk m p.1 p.2
  apart : A.Pairwise RegionsApart

/-- The blocks of a region fill it. -/
theorem RegionOk.end_eq {m : Words} {r : Region} {bs : List Blk} (h : RegionOk m r bs) :
    (cursorAfter r.cursor (r.blks bs)).addr = r.stop := by
  have hroom := h.wf.room
  have : cursorAfter r.cursor (r.blks bs) = r.last.cursor := by
    unfold Region.blks
    rw [show r.first :: (bs ++ [r.last]) = (r.first :: bs) ++ [r.last] from rfl,
      cursorAfter_append]
    rfl
  rw [this]
  show r.stop - 16 + 16 + 0 = r.stop
  omega

/-- Each block lies in its region and is aligned. -/
theorem RegionOk.mem_bounds {m : Words} {r : Region} {bs : List Blk} (h : RegionOk m r bs)
    {x : Blk} (hx : x ∈ r.blks bs) :
    r.start ≤ x.addr ∧ x.next ≤ r.stop ∧ x.addr % 8 = 0 ∧ x.size % 8 = 0 := by
  obtain ⟨-, hall⟩ := h.laid.bounds
  obtain ⟨-, hal⟩ := h.laid.aligned h.wf.start_al
  have h1 := hall x hx
  have h2 := hal x hx
  rw [h.end_eq] at h1
  exact ⟨h1.1, h1.2, h2.1, h2.2⟩

/-- A block of the heap is a block of a region. -/
theorem mem_allBlks {A : HeapBlks} {x : Blk} :
    x ∈ allBlks A ↔ ∃ p ∈ A, x ∈ p.1.blks p.2 := by
  simp [allBlks, List.mem_flatMap]

/-- A block of a user is one of a region. -/
theorem mem_userBlks {A : HeapBlks} {x : Blk} : x ∈ userBlks A ↔ ∃ p ∈ A, x ∈ p.2 := by
  simp [userBlks, List.mem_flatMap]

/-- The blocks of a region are its first one, those of users and its last one. -/
theorem mem_blks {r : Region} {bs : List Blk} {x : Blk} :
    x ∈ r.blks bs ↔ x = r.first ∨ x ∈ bs ∨ x = r.last := by
  simp [Region.blks]

/-- A block of a user is a block of the heap. -/
theorem mem_allBlks_of_mem_userBlks {A : HeapBlks} {x : Blk} (h : x ∈ userBlks A) :
    x ∈ allBlks A := by
  obtain ⟨p, hp, hx⟩ := mem_userBlks.1 h
  exact mem_allBlks.2 ⟨p, hp, mem_blks.2 (.inr (.inl hx))⟩

/-- Two blocks of a run do not overlap. -/
theorem Laid.disjoint {m : Words} {c : Cursor} {xs : List Blk} (h : Laid m c xs) {x y : Blk}
    (hx : x ∈ xs) (hy : y ∈ xs) (hne : x ≠ y) : x.next ≤ y.addr ∨ y.next ≤ x.addr := by
  induction xs generalizing c with
  | nil => cases hx
  | cons z zs ih =>
    obtain ⟨hz, hrest⟩ := h
    obtain ⟨-, hall⟩ := hrest.bounds
    rcases List.mem_cons.1 hx with rfl | hx'
    · rcases List.mem_cons.1 hy with rfl | hy'
      · exact absurd rfl hne
      · exact .inl (hall y hy').1
    · rcases List.mem_cons.1 hy with rfl | hy'
      · exact .inr (hall x hx').1
      · exact ih hrest hx' hy'

/-- **Blocks do not overlap**, within a region or across regions. -/
theorem LayoutOk.disjoint {m : Words} {A : HeapBlks} (h : LayoutOk m A) {x y : Blk}
    (hx : x ∈ allBlks A) (hy : y ∈ allBlks A) (hne : x ≠ y) :
    x.next ≤ y.addr ∨ y.next ≤ x.addr := by
  obtain ⟨p, hp, hxp⟩ := mem_allBlks.1 hx
  obtain ⟨q, hq, hyq⟩ := mem_allBlks.1 hy
  have hpok := h.region p hp
  have hqok := h.region q hq
  by_cases hpq : p = q
  · subst hpq
    exact hpok.laid.disjoint hxp hyq hne
  · have hxb := hpok.mem_bounds hxp
    have hyb := hqok.mem_bounds hyq
    have hp2 := hpok.wf.stop_le
    have hp1 := hpok.wf.lo_le
    have hq2 := hqok.wf.stop_le
    have hq1 := hqok.wf.lo_le
    rcases h.apart.forall hp hq hpq with hle | hle
    · exact .inl (by omega)
    · exact .inr (by omega)

/-! ## The heap as a whole -/

/-- The memory and the lists of `s` represent the blocks `A`, with the lists `fl` of free ones. -/
structure HeapRep (cfg : MmConfig) (s : MmHead) (A : HeapBlks) (fl : ℕ → List ℕ) : Prop where
  layout : LayoutOk s.mem A
  lists : FreelistsOk cfg s fl
  filed : ∀ l a, a ∈ fl l ↔
    ∃ b ∈ userBlks A, b.addr = a ∧ b.free = true ∧ sizeToLevel cfg b.size = some l

section Rep

variable {cfg : MmConfig} {s : MmHead} {A A₁ A₂ : HeapBlks} {fl : ℕ → List ℕ}
  {r : Region} {L R mid mid' S : List Blk} {x n : Blk}

/-- Each block lies in the address space and is aligned. -/
theorem HeapRep.blk_bounds (h : HeapRep cfg s A fl) (hx : x ∈ allBlks A) :
    0 < x.addr ∧ x.next ≤ sizeRange ∧ x.addr % 8 = 0 ∧ x.size % 8 = 0 := by
  obtain ⟨p, hp, hxp⟩ := mem_allBlks.1 hx
  have hok := h.layout.region p hp
  have hb := hok.mem_bounds hxp
  have h1 := hok.wf.lo_pos
  have h2 := hok.wf.lo_le
  have h3 := hok.wf.stop_le
  have h4 := hok.wf.hi_le
  omega

/-- A block of a user has at least 32 bytes. -/
theorem HeapRep.min_size (h : HeapRep cfg s A fl) (hx : x ∈ userBlks A) : 32 ≤ x.size := by
  obtain ⟨p, hp, hxp⟩ := mem_userBlks.1 hx
  exact (h.layout.region p hp).min_size x hxp

/-- An address inside a block is no link word, except the links of a free block. -/
theorem HeapRep.noLink (h : HeapRep cfg s A fl) (hx : x ∈ allBlks A) {a : ℕ} (hlo : x.addr ≤ a)
    (hhi : a < x.addr + 16 ∨ a < x.next) (hlink : x.free = true → a < x.addr + 16) :
    NoLink fl a := by
  intro l y hy
  obtain ⟨b, hb, rfl, hfree, -⟩ := (h.filed l y).1 hy
  have hbsize := h.min_size hb
  have hnext : b.next = b.addr + 16 + b.size := rfl
  have hxnext : x.next = x.addr + 16 + x.size := rfl
  by_cases hxb : x = b
  · subst hxb
    have := hlink hfree
    omega
  · rcases h.layout.disjoint hx (mem_allBlks_of_mem_userBlks hb) hxb with hd | hd
    · omega
    · omega

/-- Only link words and words in `[lo, hi)` change. -/
def Frame (fl : ℕ → List ℕ) (lo hi : ℕ) (m m' : Words) : Prop :=
  ∀ a, NoLink fl a → (a < lo ∨ hi ≤ a) → m' a = m a

/-- The blocks of a region around the run `mid`, which ends before `n`. -/
theorem blks_split (r : Region) (hRS : R ++ [r.last] = n :: S) :
    r.blks (L ++ mid ++ R) = (r.first :: L) ++ (mid ++ n :: S) := by
  simp [Region.blks, ← hRS]

/-- Where the run behind `L` starts. -/
def runStart (r : Region) (L : List Blk) : Cursor := cursorAfter r.cursor (r.first :: L)

/-- **The splice rule.** Replace the run `mid` by `mid'`. -/
theorem HeapRep.splice (h : HeapRep cfg s A fl) (hA : A = A₁ ++ (r, L ++ mid ++ R) :: A₂)
    (hRS : R ++ [r.last] = n :: S) {m' : Words}
    (hframe : Frame fl (runStart r L).addr (n.addr + 16) s.mem m')
    (hnew : Laid m' (runStart r L) (mid' ++ [n])) (hmin : ∀ x ∈ mid', 32 ≤ x.size) :
    LayoutOk m' (A₁ ++ (r, L ++ mid' ++ R) :: A₂) := by
  have hr : RegionOk s.mem r (L ++ mid ++ R) := h.layout.region (r, _) (by simp [hA])
  have hlaid := hr.laid
  rw [blks_split r hRS] at hlaid
  obtain ⟨hpre, hrest⟩ := laid_append.1 hlaid
  obtain ⟨hmid, hn, hS⟩ := laid_append.1 hrest
  have hprebd := hpre.bounds
  have hmidbd := hmid.bounds
  have hSbd := hS.bounds
  have hncur : n.cursor.addr = n.addr + 16 + n.size := rfl
  have hstop : (cursorAfter n.cursor S).addr = r.stop := by
    have := hr.end_eq
    rw [blks_split r hRS, cursorAfter_append, cursorAfter_append] at this
    exact this
  have hstart : r.start ≤ (runStart r L).addr := hprebd.1
  have hnaddr : (runStart r L).addr ≤ n.addr := by
    rw [hn.addr]
    exact hmidbd.1
  have hmemblks : ∀ p ∈ A, ∀ x ∈ p.1.blks p.2, x ∈ allBlks A := fun p hp x hx =>
    mem_allBlks.2 ⟨p, hp, hx⟩
  -- a header outside the run keeps its words
  have hkeep : ∀ x ∈ allBlks A, (x.addr + 16 ≤ (runStart r L).addr ∨ n.addr + 16 ≤ x.addr) →
      ∀ o < 16, m' (x.addr + o) = s.mem (x.addr + o) := by
    intro x hx hout o ho
    apply hframe
    · exact h.noLink hx (by omega) (by omega) (by omega)
    · omega
  refine ⟨?_, ?_⟩
  · intro p hp
    have hcases : p = (r, L ++ mid' ++ R) ∨ (p ∈ A₁ ∨ p ∈ A₂) := by
      simp only [List.mem_append, List.mem_cons] at hp
      tauto
    rcases hcases with rfl | hother
    · refine ⟨hr.wf, ?_, ?_, ?_⟩
      · show Laid m' r.cursor (r.blks (L ++ mid' ++ R))
        rw [blks_split r hRS]
        refine laid_append.2 ⟨?_, ?_⟩
        · apply hpre.congr
          intro y hy o ho
          apply hkeep y _ _ o ho
          · apply hmemblks (r, L ++ mid ++ R) (by simp [hA])
            rw [blks_split r hRS]
            exact List.mem_append_left _ hy
          · have := (hprebd.2 y hy).2
            have hnext : y.next = y.addr + 16 + y.size := rfl
            left
            show y.addr + 16 ≤ (cursorAfter r.cursor (r.first :: L)).addr
            omega
        · rw [show mid' ++ n :: S = (mid' ++ [n]) ++ S by simp]
          refine laid_append.2 ⟨hnew, ?_⟩
          rw [cursorAfter_append]
          apply hS.congr
          intro y hy o ho
          apply hkeep y _ _ o ho
          · apply hmemblks (r, L ++ mid ++ R) (by simp [hA])
            rw [blks_split r hRS]
            simp [hy]
          · have := (hSbd.2 y hy).1
            omega
      · intro y hy
        have hy' : y ∈ L ∨ y ∈ mid' ∨ y ∈ R := by
          simpa [or_assoc] using hy
        rcases hy' with hy | hy | hy
        · exact hr.min_size y (by simp [hy])
        · exact hmin y hy
        · exact hr.min_size y (by simp [hy])
      · have hfirst : r.first ∈ allBlks A :=
          hmemblks (r, L ++ mid ++ R) (by simp [hA]) _ (by simp [Region.blks])
        have hnextf : r.first.next = r.start + 16 + 8 := rfl
        have hfb := (hprebd.2 r.first (by simp)).2
        rw [hframe (r.start + 16), hr.end_word]
        · exact h.noLink hfirst (by show r.start ≤ _; omega) (.inr (by omega))
            (by intro hc; cases hc)
        · left
          show r.start + 16 < (cursorAfter r.cursor (r.first :: L)).addr
          omega
    · have hpA : p ∈ A := by
        rw [hA]
        simp only [List.mem_append, List.mem_cons]
        tauto
      have hpok := h.layout.region p hpA
      have hap : RegionsApart p (r, L ++ mid ++ R) := by
        have hpw := h.layout.apart
        rw [hA, List.pairwise_append] at hpw
        obtain ⟨-, hpw2, hcross⟩ := hpw
        rcases hother with hp1 | hp2
        · exact hcross p hp1 _ (by simp)
        · exact ((List.pairwise_cons.1 hpw2).1 p hp2).symm
      have hout : ∀ a, p.1.start ≤ a → a < p.1.stop → (a < (runStart r L).addr ∨ n.addr + 16 ≤ a) := by
        intro a h1 h2
        have hp1 := hpok.wf.lo_le
        have hp2 := hpok.wf.stop_le
        have hr1 := hr.wf.lo_le
        have hr2 := hr.wf.stop_le
        have hnstop := hSbd.1
        rcases hap with hle | hle
        · left
          simp only at hle
          omega
        · right
          simp only at hle
          omega
      refine ⟨hpok.wf, ?_, hpok.min_size, ?_⟩
      · apply hpok.laid.congr
        intro y hy o ho
        have hyb := hpok.mem_bounds hy
        have hnext : y.next = y.addr + 16 + y.size := rfl
        apply hframe
        · exact h.noLink (hmemblks p hpA y hy) (by omega) (by omega) (by omega)
        · exact hout _ (by omega) (by omega)
      · have hroom := hpok.wf.room
        rw [hframe (p.1.start + 16), hpok.end_word]
        · have hnextf : p.1.first.next = p.1.start + 16 + 8 := rfl
          exact h.noLink (hmemblks p hpA p.1.first (by simp [Region.blks]))
            (by show p.1.start ≤ _; omega) (.inr (by omega)) (by intro hc; cases hc)
        · exact hout _ (by omega) (by omega)
  · have hpw := h.layout.apart
    rw [hA] at hpw
    rw [List.pairwise_append] at hpw ⊢
    obtain ⟨h1, h2, hcross⟩ := hpw
    refine ⟨h1, ?_, ?_⟩
    · rw [List.pairwise_cons] at h2 ⊢
      exact ⟨h2.1, h2.2⟩
    · intro p hp q hq
      rcases List.mem_cons.1 hq with rfl | hq
      · exact hcross p hp (r, L ++ mid ++ R) (by simp)
      · exact hcross p hp q (List.mem_cons_of_mem _ hq)

end Rep

end GenieSdk.Analysis
