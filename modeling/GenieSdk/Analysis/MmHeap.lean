import GenieSdk.Lib.Runs
import GenieSdk.Analysis.MmInit

/-!
# The heap over whole runs

A run initialises the heap with one region and then adds regions, allocates, frees, resizes and
stores into live allocations in any order. Two results hold of every state such a run reaches:
the representation invariant of the boundary tags and the free lists, and the contract of the
pointers handed out. Both need that a region added covers the bytes lost to its alignment.
-/

set_option autoImplicit false

namespace GenieSdk.Analysis

open GenieSdk.Lib GenieSdk.Model

/-! ## Runs -/

/-- The heap, the address of its head, the regions it was given and the pointers that are live. -/
structure MmRun where
  heap : MmHead
  head : ℕ
  regions : List Region
  live : List ℕ

inductive MmAct
  | addRegion (addr len : ℕ)
  | alloc (size : ℕ)
  | free (p : ℕ)
  | realloc (p size : ℕ)
  /-- a client stores a word -/
  | store (a v : ℕ)

def mmInit (cfg : MmConfig) (mem : Words) (addr len : ℕ) : Option (Except KStat MmRun) :=
  (krhinoInitMmHead cfg mem addr len).map
    (fun r => r.map (fun h =>
      { heap := h, head := mmAlignUp addr, regions := [initRegion cfg addr len], live := [] }))

/-- `none` when the call does not return. -/
def mmStep (cfg : MmConfig) (s : MmRun) : MmAct → Option MmRun
  | .addRegion addr len =>
    match krhinoAddMmRegion cfg s.head s.heap addr len with
    | none => none
    | some (.success, h) => some { s with heap := h, regions := addedRegion addr len :: s.regions }
    | some (_, h) => some { s with heap := h }
  | .alloc size =>
    match kMmAlloc cfg s.heap size with
    | none => none
    | some (p, h) => some { s with heap := h, live := if p = 0 then s.live else p :: s.live }
  | .free p =>
    match kMmFree cfg s.heap p with
    | none => none
    | some h => some { s with heap := h, live := s.live.erase p }
  | .realloc q size =>
    match kMmRealloc cfg s.heap q size with
    | none => none
    | some (p, h) => some { s with heap := h, live := reallocLive s.live q size p }
  | .store a v => some { s with heap := { s.heap with mem := setWord s.heap.mem a v } }

/-- What a caller has to respect: memory that exists and is not yet the heap's, live pointers or
NULL, sizes of type `size_t`, and stores inside live allocations. -/
def MmRun.Legal (s : MmRun) : MmAct → Prop
  | .addRegion addr len =>
    addr + len ≤ sizeRange ∧ len < sizeRange ∧ ∀ r ∈ s.regions, addr + len ≤ r.lo ∨ r.hi ≤ addr
  | .alloc size => size < sizeRange
  | .free p => p = 0 ∨ p ∈ s.live
  | .realloc p size => (p = 0 ∨ p ∈ s.live) ∧ size < sizeRange
  | .store a _ => ∃ p ∈ s.live, p ≤ a ∧ a + 4 ≤ p + usableSize s.heap p

instance (s : MmRun) (a : MmAct) : Decidable (s.Legal a) := by
  cases a <;> unfold MmRun.Legal <;> infer_instance

/-- A region that is added is at least as long as its alignment gap. -/
def MmAct.CoversGap : MmAct → Prop
  | .addRegion addr len => regionGap addr ≤ len
  | _ => True

instance (a : MmAct) : Decidable a.CoversGap := by
  cases a <;> unfold MmAct.CoversGap <;> infer_instance

/-- A region that is added is at most `MM_MAX_SIZE` long. -/
def MmAct.WithinMax (cfg : MmConfig) : MmAct → Prop
  | .addRegion _ len => len ≤ cfg.maxSize
  | _ => True

instance (cfg : MmConfig) (a : MmAct) : Decidable (a.WithinMax cfg) := by
  cases a <;> unfold MmAct.WithinMax <;> infer_instance

/-! ## The invariant along runs -/

/-- The invariant of a run, with the blocks existentially bound. The head of the heap
lies in one of its regions. -/
def RunInv (cfg : MmConfig) (s : MmRun) : Prop :=
  ∃ A fl av, MmInv cfg s.heap A fl av s.live ∧ A.map Prod.fst = s.regions ∧
    ∃ r ∈ s.regions, r.lo ≤ s.head ∧ s.head < r.hi

section Steps

variable {cfg : MmConfig} {s : MmRun}

/-- A region of the heap has its blocks. -/
theorem mem_regions {A : HeapBlks} {rs : List Region} (h : A.map Prod.fst = rs) {r : Region} :
    r ∈ rs ↔ ∃ bs, (r, bs) ∈ A := by
  rw [← h]
  simp

/-- **One step** of a run returns and keeps the invariant. -/
theorem RunInv.step (h : RunInv cfg s) {a : MmAct} (hlegal : s.Legal a) (hgap : a.CoversGap) :
    ∃ s', mmStep cfg s a = some s' ∧ RunInv cfg s' ∧ s'.heap.fixPool = s.heap.fixPool ∧
      (s'.regions = s.regions ∨
        ∃ addr len, a = .addRegion addr len ∧ s'.regions = addedRegion addr len :: s.regions) := by
  obtain ⟨A, fl, av, hinv, hreg, r₀, hr₀, hlo₀, hhi₀⟩ := h
  cases a with
  | addRegion addr len =>
    obtain ⟨hle, -, hap⟩ := hlegal
    have hap' : ∀ p ∈ A, addr + len ≤ p.1.lo ∨ p.1.hi ≤ addr := fun p hp =>
      hap p.1 ((mem_regions hreg).2 ⟨p.2, hp⟩)
    have hhead : s.head < addr ∨ addr + len ≤ s.head := by
      have := hap r₀ hr₀
      omega
    rcases hinv.addRegion hle hap' hgap hhead with ⟨st, hst, heq⟩ | ⟨t, fl', heq, hinv', hfix⟩
    · refine ⟨s, ?_, ⟨A, fl, av, hinv, hreg, r₀, hr₀, hlo₀, hhi₀⟩, rfl, .inl rfl⟩
      cases st with
      | success => exact absurd rfl hst
      | _ => simp only [mmStep, heq]
    · have hstep : mmStep cfg s (.addRegion addr len) =
          some { s with heap := t, regions := addedRegion addr len :: s.regions } := by
        simp only [mmStep, heq]
      refine ⟨_, hstep, ⟨_, fl', av, hinv', ?_, r₀, List.mem_cons_of_mem _ hr₀, hlo₀, hhi₀⟩, hfix,
        .inr ⟨addr, len, rfl, rfl⟩⟩
      rw [List.map_cons, hreg]
  | alloc size =>
    obtain ⟨p, t, A', fl', av', heq, hinv', hreg', -, -, hfix⟩ := hinv.alloc hlegal
    have hstep : mmStep cfg s (.alloc size) =
        some { s with heap := t, live := if p = 0 then s.live else p :: s.live } := by
      simp only [mmStep, heq]
    exact ⟨_, hstep, ⟨A', fl', av', hinv', hreg'.trans hreg, r₀, hr₀, hlo₀, hhi₀⟩, hfix, .inl rfl⟩
  | free p =>
    rcases hlegal with rfl | hp
    · have h0 : (0 : ℕ) ∉ s.live := fun hc => hinv.live_pos hc rfl
      refine ⟨s, ?_, ⟨A, fl, av, hinv, hreg, r₀, hr₀, hlo₀, hhi₀⟩, rfl, .inl rfl⟩
      simp only [mmStep, kMmFree, if_true, List.erase_of_not_mem h0]
    · obtain ⟨t, A', fl', av', heq, hinv', hreg', -, -, hfix⟩ := hinv.free hp
      have hstep : mmStep cfg s (.free p) = some { s with heap := t, live := s.live.erase p } := by
        simp only [mmStep, heq]
      exact ⟨_, hstep, ⟨A', fl', av', hinv', hreg'.trans hreg, r₀, hr₀, hlo₀, hhi₀⟩, hfix, .inl rfl⟩
  | realloc q size =>
    obtain ⟨p, t, A', fl', av', heq, hinv', hreg', -, -, hfix⟩ := hinv.realloc hlegal.1 hlegal.2
    have hstep : mmStep cfg s (.realloc q size) =
        some { s with heap := t, live := reallocLive s.live q size p } := by
      simp only [mmStep, heq]
    exact ⟨_, hstep, ⟨A', fl', av', hinv', hreg'.trans hreg, r₀, hr₀, hlo₀, hhi₀⟩, hfix, .inl rfl⟩
  | store b v =>
    refine ⟨_, rfl, ⟨A, fl, av, ?_, hreg, r₀, hr₀, hlo₀, hhi₀⟩, rfl, .inl rfl⟩
    apply hinv.writeLive
    intro c hc
    have hcb : c = b := by
      by_contra hne
      exact hc (setWord_ne hne)
    obtain ⟨p, hp, hlo, hhi⟩ := hlegal
    exact ⟨p, hp, by omega, by omega⟩

/-- The head of the heap lies in the first region. -/
theorem initRegion_head {addr len : ℕ} (hwf : (initRegion cfg addr len).Wf) :
    (initRegion cfg addr len).lo ≤ mmAlignUp addr ∧ mmAlignUp addr < (initRegion cfg addr len).hi := by
  have hr := sizeRange_eq
  have hhead := cfg.headSize_le
  have hup : mmAlignUp cfg.headSize ≤ 896 := by
    unfold mmAlignUp
    rw [addSize_eq (by omega)]
    omega
  have hlo : addr ≤ mmAlignUp addr + mmAlignUp cfg.headSize := hwf.lo_le
  have hroom : mmAlignUp addr + mmAlignUp cfg.headSize + 88 ≤ (initRegion cfg addr len).stop := hwf.room
  have hstop := hwf.stop_le
  have hhi : addr + len ≤ sizeRange := hwf.hi_le
  refine ⟨?_, by omega⟩
  show addr ≤ mmAlignUp addr
  unfold mmAlignUp addSize at *
  split at hlo
  · rw [if_pos (by assumption)]
    omega
  · omega

/-- **initialisation** returns, and establishes the invariant if it succeeds. -/
theorem mmInit_spec (cfg : MmConfig) (mem : Words) {addr len : ℕ} (hle : addr + len ≤ sizeRange)
    (hlen : len < sizeRange) :
    (∃ e, mmInit cfg mem addr len = some (.error e)) ∨
      ∃ s, mmInit cfg mem addr len = some (.ok s) ∧ RunInv cfg s ∧
        (∀ r ∈ s.regions, r.stop - r.start ≤ cfg.maxSize) ∧
        (cfg.blk = false → s.heap.fixPool = 0) := by
  unfold mmInit
  rcases @krhinoInitMmHead_spec cfg mem addr len hle hlen with
    ⟨e, heq⟩ | ⟨h, A, fl, av, heq, hinv, hreg, hmax, hnone⟩
  · exact .inl ⟨e, by rw [heq]; rfl⟩
  · refine .inr ⟨_, by rw [heq]; rfl, ⟨A, fl, av, hinv, hreg, _, List.mem_singleton_self _, ?_⟩, ?_,
      hnone⟩
    · have hin : initRegion cfg addr len ∈ A.map Prod.fst := by
        rw [hreg]
        exact List.mem_singleton_self _
      obtain ⟨⟨r, bs⟩, hrA, hreq⟩ := List.mem_map.1 hin
      have hwf : (initRegion cfg addr len).Wf := hreq ▸ (hinv.rep.layout.region _ hrA).wf
      exact initRegion_head hwf
    · simpa using hmax

/-- **every run** of legal calls whose regions cover their alignment gap keeps the
invariant. A heap without the fixed pool never gets one. -/
theorem runInv_of_run {mem : Words} {addr len : ℕ} {acts : List MmAct} {s₀ : MmRun}
    (hmem : addr + len ≤ sizeRange) (hlen : len < sizeRange)
    (hinit : mmInit cfg mem addr len = some (.ok s₀))
    (hmeet : StepsMeet (mmStep cfg) (fun s a => s.Legal a ∧ a.CoversGap) s₀ acts)
    (hrun : runSteps (mmStep cfg) s₀ acts = some s) :
    RunInv cfg s ∧ (cfg.blk = false → s.heap.fixPool = 0) := by
  have hinv₀ : RunInv cfg s₀ ∧ (cfg.blk = false → s₀.heap.fixPool = 0) := by
    rcases mmInit_spec cfg mem hmem hlen with ⟨e, heq⟩ | ⟨s₁, heq, hinv₁, -, hnone⟩
    · rw [heq] at hinit
      cases hinit
    · rw [heq] at hinit
      cases hinit
      exact ⟨hinv₁, hnone⟩
  obtain ⟨s', hrun', hinv⟩ := runSteps_total
    (I := fun s => RunInv cfg s ∧ (cfg.blk = false → s.heap.fixPool = 0))
    (by
      rintro s a ⟨hinv, hnone⟩ ⟨hlegal, hgap⟩
      obtain ⟨s', hstep, hinv', hfix, -⟩ := hinv.step hlegal hgap
      exact ⟨s', hstep, hinv', fun hblk => hfix.trans (hnone hblk)⟩) hinv₀ hmeet
  rw [hrun] at hrun'
  cases hrun'
  exact hinv

end Steps

/-! ## The representation invariant -/

/-- The headers of a region, followed from `b` with `MM_GET_NEXT_BLK` up to its end. -/
def blkHeaders (m : Words) (stop : ℕ) : ℕ → ℕ → List ℕ
  | 0, _ => []
  | fuel + 1, b => if stop ≤ b + 16 then [b] else b :: blkHeaders m stop fuel (mmGetNextBlk m b)

def regionHeaders (m : Words) (r : Region) : List ℕ :=
  blkHeaders m r.stop (r.stop - r.start) r.start

/-- Two neighbouring blocks: the second starts where the first ends, its `PREVFREE` bit is the
first one's `FREE` bit, and behind a free block it points back and is not free itself. -/
structure Neighbours (m : Words) (b b' : ℕ) : Prop where
  next : b' = mmGetNextBlk m b
  lt : b < b'
  prevFree : mmIsPrevFree (m (b' + 12)) = mmIsFree (m (b + 12))
  prev : mmIsFree (m (b + 12)) = true → m (b' + 8) = b
  apart : mmIsFree (m (b + 12)) = true → mmIsFree (m (b' + 12)) = false

/-- The blocks tile the region, from the region-info block to the end block of size zero. -/
structure Tiled (m : Words) (r : Region) : Prop where
  first : (regionHeaders m r).head? = some r.start
  info_size : mmGetBufSize m r.start = 8
  last : (regionHeaders m r).getLast? = some (r.stop - 16)
  end_size : mmGetBufSize m (r.stop - 16) = 0
  chain : (regionHeaders m r).IsChain (Neighbours m)

/-- **The representation invariant of the heap.** -/
structure HeapOk (cfg : MmConfig) (s : MmHead) (regions : List Region) (fl : ℕ → List ℕ) : Prop where
  tiled : ∀ r ∈ regions, Tiled s.mem r
  /-- the list of every level holds `fl`, and its bit of the bitmap says whether it is empty -/
  list : ∀ l < cfg.bitLevel,
    DList (fun x => s.mem (x + 20)) (fun x => s.mem (x + 16)) 0 (s.freelist l) (fl l)
  bit : ∀ l < cfg.bitLevel, s.freeBitmap.testBit l = true ↔ s.freelist l ≠ 0
  /-- a free block is in the list of its level, once, and in no other -/
  free : ∀ r ∈ regions, ∀ b ∈ regionHeaders s.mem r, mmIsFree (s.mem (b + 12)) = true →
    mmMinSize ≤ mmGetBufSize s.mem b ∧
      ∃ l < cfg.bitLevel, sizeToLevel cfg (mmGetBufSize s.mem b) = some l ∧
        (fl l).count b = 1 ∧ ∀ k ≠ l, b ∉ fl k
  used : ∀ r ∈ regions, ∀ b ∈ regionHeaders s.mem r, mmIsFree (s.mem (b + 12)) = false →
    ∀ l, b ∉ fl l

section Tiling

variable {cfg : MmConfig} {s : MmHead} {A : HeapBlks} {fl : ℕ → List ℕ}

/-- Following the headers of laid-out blocks visits them all. -/
theorem Laid.headers {m : Words} {c : Cursor} {xs : List Blk} {e : Blk} {stop fuel : ℕ}
    (h : Laid m c (xs ++ [e])) (he : e.addr + 16 = stop) (hstop : stop ≤ sizeRange)
    (hfuel : xs.length < fuel) : blkHeaders m stop fuel c.addr = (xs ++ [e]).map Blk.addr := by
  induction xs generalizing c fuel with
  | nil =>
    obtain ⟨fuel, rfl⟩ : ∃ k, fuel = k + 1 := ⟨fuel - 1, by simp at hfuel; omega⟩
    rw [blkHeaders, ← h.1.addr, if_pos (by omega)]
    rfl
  | cons x xs ih =>
    obtain ⟨fuel, rfl⟩ : ∃ k, fuel = k + 1 := ⟨fuel - 1, by simp at hfuel; omega⟩
    obtain ⟨hx, hrest⟩ := h
    have hb := (hrest.bounds.2 e (by simp)).1
    have hcur : x.cursor.addr = x.next := rfl
    have hnext : x.next = x.addr + 16 + x.size := rfl
    rw [blkHeaders, ← hx.addr, if_neg (by omega), hx.nextBlk (by omega), ← hcur,
      ih hrest (by simp at hfuel; omega)]
    rfl

/-- Each block takes sixteen bytes at least. -/
theorem Laid.length_le {m : Words} {c : Cursor} {xs : List Blk} (h : Laid m c xs) :
    c.addr + 16 * xs.length ≤ (cursorAfter c xs).addr := by
  induction xs generalizing c with
  | nil => simp [cursorAfter]
  | cons x xs ih =>
    have := ih h.2
    have hcur : x.cursor.addr = x.addr + 16 + x.size := rfl
    have haddr := h.1.addr
    rw [List.length_cons]
    show c.addr + 16 * (xs.length + 1) ≤ (cursorAfter x.cursor xs).addr
    omega

/-- The headers that are found in a region are those of its blocks. -/
theorem RegionOk.headers_eq {m : Words} {r : Region} {bs : List Blk} (h : RegionOk m r bs) :
    regionHeaders m r = (r.blks bs).map Blk.addr := by
  have hroom := h.wf.room
  have hlen := h.laid.length_le
  have hend := h.end_eq
  have hlast : r.last.addr = r.stop - 16 := rfl
  have hcur : r.cursor.addr = r.start := rfl
  have hblks : r.blks bs = (r.first :: bs) ++ [r.last] := rfl
  have hstop := h.wf.stop_le
  have hhi := h.wf.hi_le
  rw [hend, hcur] at hlen
  have hl := h.laid
  rw [hblks] at hl hlen ⊢
  simp only [List.length_append, List.length_cons, List.length_nil] at hlen
  unfold regionHeaders
  rw [← hcur]
  exact hl.headers (by omega) (by omega) (by simp only [List.length_cons]; omega)

/-- Neighbouring blocks of a laid-out run. -/
theorem Laid.neighbours {m : Words} {c : Cursor} {xs : List Blk} (h : Laid m c xs)
    (hlt : (cursorAfter c xs).addr ≤ sizeRange) : (xs.map Blk.addr).IsChain (Neighbours m) := by
  induction xs generalizing c with
  | nil => exact List.IsChain.nil
  | cons x xs ih =>
    obtain ⟨hx, hrest⟩ := h
    have hafter : cursorAfter c (x :: xs) = cursorAfter x.cursor xs := rfl
    rw [hafter] at hlt
    have ihx := ih hrest hlt
    cases xs with
    | nil => exact List.isChain_singleton _
    | cons y ys =>
      obtain ⟨hy, hys⟩ := hrest
      have hyb := (hys.bounds).1
      have hya : y.addr = x.next := hy.addr
      have hxn : x.next = x.addr + 16 + x.size := rfl
      have hyc : y.cursor.addr = y.addr + 16 + y.size := rfl
      have hafter' : cursorAfter x.cursor (y :: ys) = cursorAfter y.cursor ys := rfl
      rw [hafter'] at hlt
      have hxfree : mmIsFree (m (x.addr + 12)) = x.free := by
        rw [hx.word, mmIsFree_blkWord hx.aligned]
      have hyw : m (y.addr + 12) = blkWord x.free y := hy.word
      refine List.isChain_cons_cons.2 ⟨⟨?_, by omega, ?_, ?_, ?_⟩, ihx⟩
      · rw [hx.nextBlk (by omega), hya]
      · rw [hyw, mmIsPrevFree_blkWord hy.aligned, hxfree]
      · rw [hxfree]
        exact hy.prev
      · rw [hxfree, hyw, mmIsFree_blkWord hy.aligned]
        exact hy.apart

/-- The blocks of a region tile it. -/
theorem RegionOk.tiled {m : Words} {r : Region} {bs : List Blk} (h : RegionOk m r bs) :
    Tiled m r := by
  have hroom := h.wf.room
  have heq := h.headers_eq
  have hlaid := h.laid
  have hhi := h.wf.hi_le
  have hstop := h.wf.stop_le
  have hlastw : HdrOk m (cursorAfter r.cursor (r.first :: bs)) r.last := by
    rw [show r.blks bs = (r.first :: bs) ++ [r.last] from rfl] at hlaid
    exact (laid_append.1 hlaid).2.1
  refine ⟨?_, ?_, ?_, ?_, ?_⟩
  · rw [heq]
    rfl
  · exact hlaid.1.bufSize
  · rw [heq, show r.blks bs = (r.first :: bs) ++ [r.last] from rfl, List.map_append]
    exact List.getLast?_concat
  · exact hlastw.bufSize
  · rw [heq]
    apply hlaid.neighbours
    rw [h.end_eq]
    omega

/-- A block's word tells whether it is free, and its size. -/
theorem RegionOk.header {m : Words} {r : Region} {bs : List Blk} (h : RegionOk m r bs) {b : Blk}
    (hb : b ∈ r.blks bs) :
    b.addr ∈ regionHeaders m r ∧ mmIsFree (m (b.addr + 12)) = b.free ∧
      mmGetBufSize m b.addr = b.size := by
  obtain ⟨L, R, hLR⟩ := List.append_of_mem hb
  have hlaid := h.laid
  rw [hLR] at hlaid
  obtain ⟨-, hbw, -⟩ := laid_append.1 hlaid
  refine ⟨?_, ?_, hbw.bufSize⟩
  · rw [h.headers_eq]
    exact List.mem_map_of_mem hb
  · rw [hbw.word, mmIsFree_blkWord hbw.aligned]

/-- Every header of a region is a block of the layout. -/
theorem HeapRep.header (h : HeapRep cfg s A fl) {r : Region} (hr : r ∈ A.map Prod.fst) {a : ℕ}
    (ha : a ∈ regionHeaders s.mem r) :
    ∃ b ∈ allBlks A, b.addr = a ∧ mmIsFree (s.mem (a + 12)) = b.free ∧
      mmGetBufSize s.mem a = b.size ∧
      (b.free = true → b ∈ userBlks A ∧ b.size < r.stop - r.start) := by
  obtain ⟨⟨r', bs⟩, hp, rfl⟩ := List.mem_map.1 hr
  have hok := h.layout.region _ hp
  rw [hok.headers_eq] at ha
  obtain ⟨b, hb, rfl⟩ := List.mem_map.1 ha
  obtain ⟨-, hfree, hsize⟩ := hok.header hb
  have hbd := hok.mem_bounds hb
  have hnext : b.next = b.addr + 16 + b.size := rfl
  refine ⟨b, mem_allBlks.2 ⟨_, hp, hb⟩, rfl, hfree, hsize, ?_⟩
  intro hbf
  simp only at hbd ⊢
  refine ⟨?_, by omega⟩
  rcases mem_blks.1 hb with rfl | hbu | rfl
  · cases hbf
  · exact mem_userBlks.2 ⟨_, hp, hbu⟩
  · cases hbf

/-- **the invariant, read off the memory.** -/
theorem HeapRep.heapOk (h : HeapRep cfg s A fl)
    (hmax : ∀ r ∈ A.map Prod.fst, r.stop - r.start ≤ cfg.maxSize) :
    HeapOk cfg s (A.map Prod.fst) fl := by
  refine ⟨?_, h.lists.list, ?_, ?_, ?_⟩
  · intro r hr
    obtain ⟨p, hp, rfl⟩ := List.mem_map.1 hr
    exact (h.layout.region p hp).tiled
  · intro l hl
    rw [h.lists.bit l hl]
    exact (not_congr (h.lists.list l hl).head_eq_zero_iff).symm
  · intro r hr a ha hfree
    obtain ⟨b, hb, rfl, hbf, hsize, huser⟩ := h.header hr ha
    rw [hbf] at hfree
    obtain ⟨hbu, hbr⟩ := huser hfree
    obtain ⟨l, hlev⟩ := sizeToLevel_isSome (hbr.trans_le (hmax r hr))
    rw [hsize]
    have hmem : b.addr ∈ fl l := (h.filed_blk hbu hfree l).2 hlev
    refine ⟨h.min_size hbu, l, sizeToLevel_lt hlev, hlev, ?_, ?_⟩
    · exact List.count_eq_one_of_mem (h.lists.nodup l) hmem
    · intro k hk hc
      exact hk (h.lists.level_unique k l _ hc hmem)
  · intro r hr a ha hfree l hc
    obtain ⟨b, hb, rfl, hbf, -, -⟩ := h.header hr ha
    obtain ⟨b', hb', hba, hbf', -⟩ := (h.filed l b.addr).1 hc
    have := h.eq_of_addr (mem_allBlks_of_mem_userBlks hb') hb hba
    rw [this, ← hbf, hfree] at hbf'
    cases hbf'

end Tiling

/-- The regions of a run stay within the size the levels cover. -/
theorem addedRegion_size {cfg : MmConfig} {addr len : ℕ} (h : len ≤ cfg.maxSize) :
    (addedRegion addr len).stop - (addedRegion addr len).start ≤ cfg.maxSize := by
  have : mmAlignDown (len - regionGap addr) ≤ len := by
    unfold mmAlignDown
    omega
  show mmAlignUp addr + mmAlignDown (len - regionGap addr) - mmAlignUp addr ≤ cfg.maxSize
  omega

/-- **The heap keeps its representation invariant** in every run whose regions cover their
alignment gap and are within `MM_MAX_SIZE`. Initialisation returns, and so does every legal call
of the run; after the last one the blocks tile every region, the boundary tags agree, no two
neighbours are free, and the free lists and the bitmap hold exactly the free blocks. -/
theorem heap_invariant (cfg : MmConfig) (mem : Words) (addr len : ℕ) (acts : List MmAct)
    (hmem : addr + len ≤ sizeRange) (hlen : len < sizeRange) :
    (∃ r, mmInit cfg mem addr len = some r) ∧
      ∀ s₀, mmInit cfg mem addr len = some (.ok s₀) →
        StepsMeet (mmStep cfg) (fun s a => s.Legal a ∧ a.WithinMax cfg ∧ a.CoversGap) s₀ acts →
        ∃ s fl, runSteps (mmStep cfg) s₀ acts = some s ∧ HeapOk cfg s.heap s.regions fl := by
  rcases mmInit_spec cfg mem hmem hlen with ⟨e, heq⟩ | ⟨s₀, heq, hinv₀, hmax₀, -⟩
  · refine ⟨⟨_, heq⟩, ?_⟩
    intro s₀ hs₀
    rw [heq] at hs₀
    cases hs₀
  refine ⟨⟨_, heq⟩, ?_⟩
  intro s₁ hs₁ hmeet
  rw [heq] at hs₁
  cases hs₁
  obtain ⟨s, hrun, ⟨A, fl, av, hinv, hreg, -⟩, hmax⟩ := runSteps_total
    (I := fun s => RunInv cfg s ∧ ∀ r ∈ s.regions, r.stop - r.start ≤ cfg.maxSize)
    (by
      rintro s a ⟨hinv, hmax⟩ ⟨hlegal, hwithin, hgap⟩
      obtain ⟨s', hstep, hinv', -, hregs⟩ := hinv.step hlegal hgap
      refine ⟨s', hstep, hinv', ?_⟩
      intro r hr
      rcases hregs with hsame | ⟨addr', len', rfl, hadd⟩
      · exact hmax r (hsame ▸ hr)
      · rw [hadd] at hr
        rcases List.mem_cons.1 hr with rfl | hr
        · exact addedRegion_size hwithin
        · exact hmax r hr)
    ⟨hinv₀, hmax₀⟩ hmeet
  refine ⟨s, fl, hrun, ?_⟩
  rw [← hreg]
  exact hinv.rep.heapOk (by rwa [hreg])

/-- A small heap of at most 4096 bytes, with or without the fixed pool. -/
def smallCfg (blk : Bool) : MmConfig where
  maxBit := 12
  quick := false
  blk := blk
  tlfBlkSize := 64
  headSize := 160
  poolHdrSize := 48
  minBit_le := by norm_num
  maxBit_le := by norm_num
  tlfBlkSize_le := by norm_num
  tlfBlkSize_dvd := by norm_num
  headSize_le := by norm_num
  poolHdrSize_le := by norm_num

/-- The small heap on the memory `[4096, 6144)`. -/
def smallInit (blk : Bool) : Option (Except KStat MmRun) := mmInit (smallCfg blk) (fun _ => 0) 4096 2048

/-- What a computation on the initialised heap decides holds of it. -/
theorem exists_init {blk : Bool} {P : MmRun → Prop} [DecidablePred P]
    (h : (match smallInit blk with
      | some (.ok s₀) => decide (P s₀)
      | _ => false) = true) : ∃ s₀, smallInit blk = some (.ok s₀) ∧ P s₀ := by
  cases hs : smallInit blk with
  | none => simp [hs] at h
  | some r =>
    cases r with
    | error e => simp [hs] at h
    | ok s₀ => exact ⟨s₀, rfl, by simpa [hs] using h⟩

/-- The invariant at a run that adds a region, splits it twice, frees the first part, grows the
second into what follows and stores into the result. -/
theorem heap_invariant_small :
    ∃ s₀ s fl, smallInit false = some (.ok s₀) ∧
      runSteps (mmStep (smallCfg false)) s₀ [.addRegion 8193 300, .alloc 100, .alloc 40, .free 8240,
        .realloc 8360 90, .store 8360 7] = some s ∧
      HeapOk (smallCfg false) s.heap s.regions fl := by
  obtain ⟨s₀, hs₀, hmeet⟩ := @exists_init false (fun s₀ =>
    StepsMeet (mmStep (smallCfg false))
      (fun s a => s.Legal a ∧ a.WithinMax (smallCfg false) ∧ a.CoversGap) s₀
      [.addRegion 8193 300, .alloc 100, .alloc 40, .free 8240, .realloc 8360 90, .store 8360 7])
    _ (by decide +kernel)
  obtain ⟨s, fl, hrun, hok⟩ := (heap_invariant (smallCfg false) (fun _ => 0) 4096 2048 _
    (by rw [sizeRange_eq]; norm_num) (by rw [sizeRange_eq]; norm_num)).2 s₀ hs₀ hmeet
  exact ⟨s₀, s, fl, hs₀, hrun, hok⟩

/-- Three bytes at an odd address are accepted as a region: the length wraps past the check, and
no blocks tile what was handed over. -/
theorem heap_invariant_short_region :
    ∃ s₀ s, smallInit false = some (.ok s₀) ∧ s₀.Legal (.addRegion 8193 3) ∧
      MmAct.WithinMax (smallCfg false) (.addRegion 8193 3) ∧
      runSteps (mmStep (smallCfg false)) s₀ [.addRegion 8193 3] = some s ∧
      ∀ fl, ¬ HeapOk (smallCfg false) s.heap s.regions fl := by
  obtain ⟨s₀, hs₀, hlegal, hadd⟩ := @exists_init false (fun s₀ =>
    s₀.Legal (.addRegion 8193 3) ∧
      (krhinoAddMmRegion (smallCfg false) s₀.head s₀.heap 8193 3).map Prod.fst = some .success)
    _ (by decide +kernel)
  obtain ⟨⟨st, h⟩, heq, hst⟩ := Option.map_eq_some_iff.1 hadd
  obtain rfl : st = .success := hst
  refine ⟨s₀, { s₀ with heap := h, regions := addedRegion 8193 3 :: s₀.regions }, hs₀, hlegal,
    by decide, ?_, ?_⟩
  · simp only [runSteps, mmStep, heq]
  · intro fl hok
    have hempty : (addedRegion 8193 3).stop - (addedRegion 8193 3).start = 0 := by decide +kernel
    have hfirst := (hok.tiled (addedRegion 8193 3) (by simp)).first
    rw [regionHeaders, hempty] at hfirst
    cases hfirst

/-! ## The allocator contract -/

/-- What the client of a new pointer of `size` requested bytes relies on, with the other live
allocations in `s.live`: it is aligned, inside a region handed to the heap, has the bytes requested,
and they are nobody else's: it is none of the live pointers, and its bytes are no other live
allocation's and no block header's. -/
structure Contract (s : MmRun) (p size : ℕ) : Prop where
  aligned : p % 8 = 0
  inside : ∃ r ∈ s.regions, r.lo ≤ p ∧ p + usableSize s.heap p ≤ r.hi
  enough : size ≤ usableSize s.heap p
  fresh : p ∉ s.live
  apart : ∀ q ∈ s.live, p + usableSize s.heap p ≤ q ∨ q + usableSize s.heap q ≤ p
  headers : ∀ r ∈ s.regions, ∀ b ∈ regionHeaders s.heap.mem r,
    p + usableSize s.heap p ≤ b ∨ b + 16 ≤ p

/-- A pointer that has become live meets the contract for what it can hold. -/
theorem RunInv.contract {cfg : MmConfig} {s : MmRun} {p size : ℕ}
    (h : RunInv cfg { s with live := p :: s.live }) (hserve : Serves s.heap p size)
    (hsize : size < sizeRange) : Contract s p size ↔ size ≤ sizeRange - 8 := by
  obtain ⟨A, fl, av, hinv, hreg, -⟩ : ∃ A fl av, MmInv cfg s.heap A fl av (p :: s.live) ∧
    A.map Prod.fst = s.regions ∧ ∃ r ∈ s.regions, r.lo ≤ s.head ∧ s.head < r.hi := h
  have hp : p ∈ p :: s.live := List.mem_cons_self
  have hfresh : p ∉ s.live := (List.nodup_cons.1 hinv.live_nodup).1
  have hr := sizeRange_eq
  constructor
  · intro hc
    by_contra hbig
    have := hserve.short (by omega)
    have := hc.enough
    omega
  · intro hle
    obtain ⟨x, hx, hlo, hhi, hal⟩ := hinv.extent hp
    have hxu := (mem_usedBlks.1 hx).1
    obtain ⟨⟨r, bs⟩, hrA, hxr⟩ := mem_allBlks.1 (mem_allBlks_of_mem_userBlks hxu)
    have hok := hinv.rep.layout.region _ hrA
    have hbd := hok.mem_bounds hxr
    refine ⟨hal, ⟨r, (mem_regions hreg).2 ⟨bs, hrA⟩, ?_, ?_⟩, hserve.enough (by omega), hfresh, ?_,
      ?_⟩
    · have := hok.wf.lo_le
      simp only at this hbd
      omega
    · have := hok.wf.stop_le
      simp only at this hbd
      omega
    · intro q hq
      have hne : p ≠ q := by
        rintro rfl
        exact hfresh hq
      exact hinv.live_disjoint hp (List.mem_cons_of_mem _ hq) hne
    · intro r' hr' b hb
      obtain ⟨bs', hr'A⟩ := (mem_regions hreg).1 hr'
      have hok' := hinv.rep.layout.region _ hr'A
      rw [hok'.headers_eq] at hb
      obtain ⟨y, hy, rfl⟩ := List.mem_map.1 hb
      have hyA : y ∈ allBlks A := mem_allBlks.2 ⟨_, hr'A, hy⟩
      have hyn : y.next = y.addr + 16 + y.size := rfl
      by_cases hxy : x.addr = y.addr
      · exact .inr (by omega)
      · rcases hinv.rep.used_disjoint hx hyA hxy with hd | hd
        · exact .inl (by omega)
        · exact .inr (by omega)

/-- **The allocator contract.** In every state that a run of legal calls reaches, provided the
regions added cover their alignment gap, `k_mm_alloc` of any size and `k_mm_realloc` of NULL or
any live pointer to any size return, and a result that is not NULL meets the contract exactly if
the size is at most `2 ^ 32 - 8`, above which rounding it up wraps. -/
theorem allocator_contract (cfg : MmConfig) (mem : Words) (addr len : ℕ) (acts : List MmAct)
    (s₀ s : MmRun) (size : ℕ) (hmem : addr + len ≤ sizeRange) (hlen : len < sizeRange)
    (hinit : mmInit cfg mem addr len = some (.ok s₀))
    (hmeet : StepsMeet (mmStep cfg) (fun s a => s.Legal a ∧ a.CoversGap) s₀ acts)
    (hrun : runSteps (mmStep cfg) s₀ acts = some s) (hsize : size < sizeRange) :
    (∃ p h, kMmAlloc cfg s.heap size = some (p, h) ∧
      (p ≠ 0 → (Contract { s with heap := h } p size ↔
        size ≤ 2 ^ 32 - 8))) ∧
    ∀ q, q = 0 ∨ q ∈ s.live → ∃ p h, kMmRealloc cfg s.heap q size = some (p, h) ∧
      (p ≠ 0 → (Contract { s with heap := h, live := s.live.erase q } p size ↔
        size ≤ 2 ^ 32 - 8)) := by
  have hrange : (2 : ℕ) ^ 32 = sizeRange := by rw [sizeRange_eq]; norm_num
  obtain ⟨⟨A, fl, av, hinv, hreg, hhead⟩, -⟩ := runInv_of_run hmem hlen hinit hmeet hrun
  rw [hrange]
  refine ⟨?_, ?_⟩
  · obtain ⟨p, h, A', fl', av', heq, hinv', hreg', -, hserve, -⟩ := hinv.alloc hsize
    refine ⟨p, h, heq, ?_⟩
    intro hp
    rw [if_neg hp] at hinv'
    exact RunInv.contract (s := { s with heap := h })
      ⟨A', fl', av', hinv', hreg'.trans hreg, hhead⟩ (hserve hp) hsize
  · intro q hq
    obtain ⟨p, h, A', fl', av', heq, hinv', hreg', -, hserve, -⟩ := hinv.realloc hq hsize
    refine ⟨p, h, heq, ?_⟩
    intro hp
    rw [reallocLive, if_neg hp] at hinv'
    exact RunInv.contract (s := { s with heap := h, live := s.live.erase q })
      ⟨A', fl', av', hinv', hreg'.trans hreg, hhead⟩ (hserve hp) hsize

/-- The contract at the small heap with its pool, after a slot and a block have been handed out:
a block of 100 bytes, and the slot grown to 100 bytes. -/
theorem allocator_contract_small :
    ∃ s₀ s p h p' h', smallInit true = some (.ok s₀) ∧
      runSteps (mmStep (smallCfg true)) s₀ [.alloc 20, .alloc 200] = some s ∧ 4344 ∈ s.live ∧
      kMmAlloc (smallCfg true) s.heap 100 = some (p, h) ∧ p ≠ 0 ∧
      Contract { s with heap := h } p 100 ∧
      kMmRealloc (smallCfg true) s.heap 4344 100 = some (p', h') ∧ p' ≠ 0 ∧
      Contract { s with heap := h', live := s.live.erase 4344 } p' 100 := by
  obtain ⟨s₀, hs₀, hmeet, hpost⟩ := @exists_init true (fun s₀ =>
    StepsMeet (mmStep (smallCfg true)) (fun s a => s.Legal a ∧ a.CoversGap) s₀
        [.alloc 20, .alloc 200] ∧
      ∃ s ∈ runSteps (mmStep (smallCfg true)) s₀ [.alloc 20, .alloc 200], 4344 ∈ s.live ∧
        (∃ r ∈ kMmAlloc (smallCfg true) s.heap 100, r.1 ≠ 0) ∧
        ∃ r ∈ kMmRealloc (smallCfg true) s.heap 4344 100, r.1 ≠ 0)
    _ (by decide +kernel)
  obtain ⟨s, hs, hlive, ⟨⟨p, h⟩, hp, hp0⟩, ⟨⟨p', h'⟩, hp', hp0'⟩⟩ := hpost
  have hrange := sizeRange_eq
  obtain ⟨⟨q, hq, hqe, hqc⟩, hre⟩ := allocator_contract (smallCfg true) (fun _ => 0) 4096 2048 _ s₀ s
    100 (by omega) (by omega) hs₀ hmeet hs (by omega)
  obtain ⟨q', hq', hqe', hqc'⟩ := hre 4344 (.inr hlive)
  rw [hqe] at hp
  cases hp
  rw [hqe'] at hp'
  cases hp'
  exact ⟨s₀, s, p, h, p', h', hs₀, hs, hlive, hqe, hp0, (hqc hp0).2 (by norm_num), hqe', hp0',
    (hqc' hp0').2 (by norm_num)⟩

/-- A request of six bytes less than the address space is answered with 32 bytes. -/
theorem allocator_contract_wraps :
    ∃ s₀ p h, smallInit true = some (.ok s₀) ∧
      kMmAlloc (smallCfg true) s₀.heap 4294967290 = some (p, h) ∧ p ≠ 0 ∧
      ¬ Contract { s₀ with heap := h } p 4294967290 := by
  obtain ⟨s₀, hs₀, ⟨p, h⟩, heq, hp0, hu⟩ := @exists_init true (fun s₀ =>
    ∃ r ∈ kMmAlloc (smallCfg true) s₀.heap 4294967290, r.1 ≠ 0 ∧ usableSize r.2 r.1 = 32)
    _ (by decide +kernel)
  refine ⟨s₀, p, h, hs₀, heq, hp0, ?_⟩
  intro hc
  have := hc.enough
  simp only at this hu
  omega

end GenieSdk.Analysis
