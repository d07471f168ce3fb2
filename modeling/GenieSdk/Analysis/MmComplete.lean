import GenieSdk.Analysis.MmHeap

/-!
# What the heap can hand out

`size_to_level` has no level for a size from `2 ^ MM_MAX_BIT` on, so `k_mm_freelist_insert` files
no block that large. `HeapRep.tlfAlloc_null` says what follows for `k_mm_alloc` past the fixed
pool: it returns NULL exactly if every filed free block is too small. Over runs this gives when
allocation is complete, and which added regions can be allocated from.
-/

set_option autoImplicit false

namespace GenieSdk.Analysis

open GenieSdk.Lib GenieSdk.Model

section Search

variable {cfg : MmConfig} {s : MmHead} {A : HeapBlks} {fl : ℕ → List ℕ} {av live : List ℕ}

/-- The rounded request is the aligned one, or the least size. -/
theorem roundReq_eq_max (req : ℕ) : roundReq req = max (mmAlignUp req) mmMinSize := by
  unfold roundReq
  split
  · omega
  · omega

/-- A block that holds the request also holds it rounded. -/
theorem roundReq_le {req n : ℕ} (hle : req ≤ n) (hal : n % 8 = 0) (hmin : 32 ≤ n)
    (hn : n < sizeRange) : roundReq req ≤ n := by
  have hr := sizeRange_eq
  unfold roundReq mmAlignUp mmMinSize
  rw [addSize_eq (by omega)]
  split
  · exact hmin
  · omega

/-- The fixed pool does not serve the request. -/
theorem kMmAlloc_tlf {size : ℕ} (hpos : 1 ≤ size)
    (hpool : ¬(s.fixPool ≠ 0 ∧ size ≤ mmBlkSize ∧ 0 < s.pool.blkAvail)) :
    kMmAlloc cfg s size = kMmTlfAlloc cfg s size := by
  unfold kMmAlloc
  rw [if_neg (by omega), if_neg hpool]

/-- The layout does not depend on the order of the search. -/
theorem HeapRep.withQuick (h : HeapRep cfg s A fl) (quick : Bool) :
    HeapRep { cfg with quick := quick } s A fl :=
  ⟨h.layout, ⟨h.lists.list, h.lists.bit, h.lists.bitmap_lt, h.lists.nodup, h.lists.aligned,
    h.lists.pos, h.lists.level_unique⟩, h.filed⟩

/-- **`k_mm_alloc` past the pool returns NULL** exactly if no filed free block is large enough.
SRCLINE: k_mm.c:430-515 -/
theorem HeapRep.tlfAlloc_null (h : HeapRep cfg s A fl) {req : ℕ} (hreq : req < sizeRange) :
    (∃ t, kMmTlfAlloc cfg s req = some (0, t)) ↔
      ∀ b ∈ userBlks A, b.free = true → b.size < cfg.maxSize → b.size < roundReq req := by
  have hround : (if mmAlignUp req < mmMinSize then mmMinSize else mmAlignUp req) = roundReq req := rfl
  unfold kMmTlfAlloc
  simp only [hround]
  cases hlev : sizeToLevel cfg (roundReq req) with
  | none =>
    have hbig : cfg.maxSize ≤ roundReq req := by
      by_contra hc
      obtain ⟨l, hl⟩ := sizeToLevel_isSome (not_le.1 hc)
      rw [hlev] at hl
      cases hl
    exact ⟨fun _ b _ _ hb => hb.trans_le hbig, fun _ => ⟨s, rfl⟩⟩
  | some level =>
    obtain ⟨g, hg, hcase⟩ := h.search hreq hlev
    simp only [hg]
    rcases hcase with ⟨rfl, hnone⟩ | ⟨b, hbu, rfl, hbf, hmax, hsz⟩
    · exact ⟨fun _ => hnone, fun _ => ⟨s, rfl⟩⟩
    · have hbb := h.blk_bounds (mem_allBlks_of_mem_userBlks hbu)
      rw [if_neg (by omega)]
      constructor
      · rintro ⟨t, ht⟩
        have hfst : b.addr + mmlistHeadSize = 0 := congrArg Prod.fst (Option.some.inj ht)
        omega
      · intro hall
        exact absurd (hall b hbu hbf hmax) (not_lt.2 hsz)

/-- A filed free block that holds the request is enough. -/
theorem MmInv.alloc_serves (h : MmInv cfg s A fl av live) {b : Blk} (hb : b ∈ userBlks A)
    (hbf : b.free = true) (hmax : b.size < cfg.maxSize) {size : ℕ} (hpos : 1 ≤ size)
    (hle : size ≤ b.size) : ∃ p t, kMmAlloc cfg s size = some (p, t) ∧ p ≠ 0 := by
  have hbb := h.rep.blk_bounds (mem_allBlks_of_mem_userBlks hb)
  have hbn : b.next = b.addr + 16 + b.size := rfl
  by_cases hpool : s.fixPool ≠ 0 ∧ size ≤ mmBlkSize ∧ 0 < s.pool.blkAvail
  · obtain ⟨p, av', s', heq, hp0, -⟩ := h.smallblkAlloc hpool.1 hpool.2.2
    refine ⟨p, s', ?_, hp0⟩
    unfold kMmAlloc
    rw [if_neg (by omega), if_pos hpool, heq]
    simp [hp0]
  · obtain ⟨p, t, A', fl', av', heq, -⟩ := h.alloc (show size < sizeRange by omega)
    refine ⟨p, t, heq, ?_⟩
    rintro rfl
    rw [kMmAlloc_tlf hpos hpool] at heq
    have hsmall := (h.rep.tlfAlloc_null (by omega)).1 ⟨t, heq⟩ b hb hbf hmax
    have := roundReq_le hle hbb.2.2.2 (h.rep.min_size hb) (by omega)
    omega

end Search

/-! ## Completeness of allocation -/

/-- A free block of at least `n` bytes. -/
@[mk_iff]
structure Fits (s : MmRun) (n b : ℕ) : Prop where
  header : ∃ r ∈ s.regions, b ∈ regionHeaders s.heap.mem r
  free : mmIsFree (s.heap.mem (b + 12)) = true
  large : n ≤ mmGetBufSize s.heap.mem b

instance (s : MmRun) (n b : ℕ) : Decidable (Fits s n b) := decidable_of_iff' _ (fits_iff s n b)

/-- The free blocks in memory are those of the layout. -/
theorem HeapRep.fits_iff {cfg : MmConfig} {s : MmRun} {A : HeapBlks} {fl : ℕ → List ℕ}
    (h : HeapRep cfg s.heap A fl) (hreg : A.map Prod.fst = s.regions) {n a : ℕ} :
    Fits s n a ↔ ∃ b ∈ userBlks A, b.addr = a ∧ b.free = true ∧ n ≤ b.size ∧
      mmGetBufSize s.heap.mem a = b.size := by
  constructor
  · rintro ⟨⟨r, hr, ha⟩, hfree, hlarge⟩
    obtain ⟨b, -, rfl, hbf, hsize, huser⟩ := h.header (hreg ▸ hr) ha
    rw [hfree] at hbf
    exact ⟨b, (huser hbf.symm).1, rfl, hbf.symm, by omega, hsize⟩
  · rintro ⟨b, hb, rfl, hbf, hlarge, hsize⟩
    obtain ⟨⟨r, bs⟩, hp, hbr⟩ := mem_userBlks.1 hb
    have hok := h.layout.region _ hp
    obtain ⟨hin, hfree, -⟩ := hok.header (mem_blks.2 (.inr (.inl hbr)))
    refine ⟨⟨r, ?_, hin⟩, hfree.trans hbf, by omega⟩
    rw [← hreg]
    exact List.mem_map_of_mem (f := Prod.fst) hp

/-- **Completeness of allocation.** In every state that a run of legal calls reaches, provided the
regions added cover their alignment gap, `k_mm_alloc` past the fixed pool returns in both orders of
the search. The result is NULL exactly if no free block is large enough, as long as some free block
large enough is below `2 ^ MM_MAX_BIT` whenever there is one at all, and only then. Both orders
fail on the same states. -/
theorem alloc_complete (cfg : MmConfig) (mem : Words) (addr len : ℕ) (acts : List MmAct)
    (s₀ s : MmRun) (size : ℕ) (hmem : addr + len ≤ sizeRange) (hlen : len < sizeRange)
    (hinit : mmInit cfg mem addr len = some (.ok s₀))
    (hmeet : StepsMeet (mmStep cfg) (fun s a => s.Legal a ∧ a.CoversGap) s₀ acts)
    (hrun : runSteps (mmStep cfg) s₀ acts = some s) (hpos : 1 ≤ size) (hsize : size < cfg.maxSize)
    (hpool : cfg.blk = true →
      ¬(s.heap.fixPool ≠ 0 ∧ size ≤ mmBlkSize ∧ 0 < s.heap.pool.blkAvail)) :
    (∀ quick, ∃ p h, kMmAlloc { cfg with quick := quick } s.heap size = some (p, h) ∧
      ((p = 0 ↔ ¬ ∃ b, Fits s (max (mmAlignUp size) mmMinSize) b) ↔
        ((∃ b, Fits s (max (mmAlignUp size) mmMinSize) b) →
          ∃ b, Fits s (max (mmAlignUp size) mmMinSize) b ∧
            mmGetBufSize s.heap.mem b < cfg.maxSize))) ∧
    ((∃ h, kMmAlloc { cfg with quick := true } s.heap size = some (0, h)) ↔
      ∃ h, kMmAlloc { cfg with quick := false } s.heap size = some (0, h)) := by
  obtain ⟨⟨A, fl, av, hinv, hreg, -⟩, hnone⟩ := runInv_of_run hmem hlen hinit hmeet hrun
  have hr := sizeRange_eq
  have hmaxle : cfg.maxSize ≤ 2 ^ 30 := Nat.pow_le_pow_right (by norm_num) cfg.maxBit_le
  have hnot : ¬(s.heap.fixPool ≠ 0 ∧ size ≤ mmBlkSize ∧ 0 < s.heap.pool.blkAvail) := by
    cases hblk : cfg.blk with
    | true => exact hpool hblk
    | false => exact fun hc => hc.1 (hnone hblk)
  have hlt : size < sizeRange := by omega
  -- in either order the result depends on the filed blocks only
  have hnull : ∀ quick, (∃ h, kMmAlloc { cfg with quick := quick } s.heap size = some (0, h)) ↔
      ∀ b, Fits s (max (mmAlignUp size) mmMinSize) b → cfg.maxSize ≤ mmGetBufSize s.heap.mem b := by
    intro quick
    rw [kMmAlloc_tlf hpos hnot, (hinv.rep.withQuick quick).tlfAlloc_null hlt, ← roundReq_eq_max]
    constructor
    · intro hall a ha
      obtain ⟨b, hb, rfl, hbf, hlarge, hbs⟩ := (hinv.rep.fits_iff hreg).1 ha
      by_contra hc
      have := hall b hb hbf (show b.size < cfg.maxSize by omega)
      omega
    · intro hall b hb hbf hbmax
      have hbmax' : b.size < cfg.maxSize := hbmax
      have hbs := hinv.rep.user_size hb
      by_contra hc
      have := hall b.addr ((hinv.rep.fits_iff hreg).2 ⟨b, hb, rfl, hbf, by omega, hbs⟩)
      omega
  refine ⟨?_, (hnull true).trans (hnull false).symm⟩
  intro quick
  obtain ⟨p, h, heq⟩ : ∃ p h, kMmAlloc { cfg with quick := quick } s.heap size = some (p, h) := by
    rw [kMmAlloc_tlf hpos hnot]
    rcases (hinv.rep.withQuick quick).tlfAlloc hlt with h0 | ⟨s', -, -, x, h1, -⟩
    · exact ⟨_, _, h0⟩
    · exact ⟨_, _, h1⟩
  refine ⟨p, h, heq, ?_⟩
  have hp : p = 0 ↔ ∀ b, Fits s (max (mmAlignUp size) mmMinSize) b →
      cfg.maxSize ≤ mmGetBufSize s.heap.mem b := by
    rw [← hnull quick, heq]
    constructor
    · rintro rfl
      exact ⟨h, rfl⟩
    · rintro ⟨h', hh⟩
      exact congrArg Prod.fst (Option.some.inj hh)
  rw [hp]
  constructor
  · intro hiff hex
    by_contra hc
    exact hiff.1 (fun b hb => not_lt.1 fun hbmax => hc ⟨b, hb, hbmax⟩) hex
  · intro hcond
    constructor
    · intro hall hex
      obtain ⟨b, hb, hbmax⟩ := hcond hex
      exact absurd (hall b hb) (not_le.2 hbmax)
    · exact fun hno b hb => absurd ⟨b, hb⟩ hno

/-- Completeness at the small heap with its pool, after a slot and a block have been handed out: a
request of 1000 bytes, in both orders. -/
theorem alloc_complete_small :
    ∃ s₀ s, smallInit true = some (.ok s₀) ∧
      runSteps (mmStep (smallCfg true)) s₀ [.alloc 20, .alloc 200] = some s ∧
      ∀ quick, ∃ p h,
        kMmAlloc { smallCfg true with quick := quick } s.heap 1000 = some (p, h) ∧
          ((p = 0 ↔ ¬ ∃ b, Fits s (max (mmAlignUp 1000) mmMinSize) b) ↔
            ((∃ b, Fits s (max (mmAlignUp 1000) mmMinSize) b) →
              ∃ b, Fits s (max (mmAlignUp 1000) mmMinSize) b ∧
                mmGetBufSize s.heap.mem b < (smallCfg true).maxSize)) := by
  obtain ⟨s₀, hs₀, hmeet, s, hs⟩ := @exists_init true (fun s₀ =>
    StepsMeet (mmStep (smallCfg true)) (fun s a => s.Legal a ∧ a.CoversGap) s₀
        [.alloc 20, .alloc 200] ∧
      ∃ s ∈ runSteps (mmStep (smallCfg true)) s₀ [.alloc 20, .alloc 200], True)
    _ (by decide +kernel)
  have hrange := sizeRange_eq
  exact ⟨s₀, s, hs₀, hs.1, (alloc_complete (smallCfg true) (fun _ => 0) 4096 2048 _ s₀ s 1000
    (by omega) (by omega) hs₀ hmeet hs.1 (by norm_num) (by decide) (fun _ => by
      simp [mmBlkSize])).1⟩

/-- The block of an added region of 8192 bytes is too large for the lists: 3000 bytes are refused
although it is free. -/
theorem alloc_complete_unfiled :
    ∃ s₀ s h, smallInit false = some (.ok s₀) ∧ s₀.Legal (.addRegion 16384 8192) ∧
      MmAct.CoversGap (.addRegion 16384 8192) ∧
      runSteps (mmStep (smallCfg false)) s₀ [.addRegion 16384 8192] = some s ∧
      kMmAlloc (smallCfg false) s.heap 3000 = some (0, h) ∧
      Fits s (max (mmAlignUp 3000) mmMinSize) 16408 := by
  obtain ⟨s₀, hs₀, hlegal, s, hs, hnull, hfits⟩ := @exists_init false (fun s₀ =>
    s₀.Legal (.addRegion 16384 8192) ∧
      ∃ s ∈ runSteps (mmStep (smallCfg false)) s₀ [.addRegion 16384 8192],
        (kMmAlloc (smallCfg false) s.heap 3000).map Prod.fst = some 0 ∧
          Fits s (max (mmAlignUp 3000) mmMinSize) 16408)
    _ (by decide +kernel)
  obtain ⟨⟨p, h⟩, heq, hp⟩ := Option.map_eq_some_iff.1 hnull
  obtain rfl : p = 0 := hp
  exact ⟨s₀, s, h, hs₀, hlegal, by decide +kernel, hs, heq, hfits⟩

/-! ## Added regions -/

/-- The free block `b` can be allocated from: a free list holds it, and any request it can hold
succeeds. -/
structure Usable (cfg : MmConfig) (s : MmHead) (b : ℕ) : Prop where
  filed : ∃ l < cfg.bitLevel, ∃ xs,
    DList (fun x => s.mem (x + 20)) (fun x => s.mem (x + 16)) 0 (s.freelist l) xs ∧ b ∈ xs
  serves : ∀ size, 1 ≤ size → size ≤ mmGetBufSize s.mem b → size < cfg.maxSize →
    ∃ p t, kMmAlloc cfg s size = some (p, t) ∧ p ≠ 0

/-- A free block is usable exactly if it is small enough to have a level. -/
theorem MmInv.usable_iff {cfg : MmConfig} {s : MmHead} {A : HeapBlks} {fl : ℕ → List ℕ}
    {av live : List ℕ} (h : MmInv cfg s A fl av live) {b : Blk} (hb : b ∈ userBlks A)
    (hbf : b.free = true) : Usable cfg s b.addr ↔ b.size < cfg.maxSize := by
  have hbb := h.rep.blk_bounds (mem_allBlks_of_mem_userBlks hb)
  have hbn : b.next = b.addr + 16 + b.size := rfl
  have hr := sizeRange_eq
  constructor
  · rintro ⟨⟨l, hl, xs, hlist, hmem⟩, -⟩
    rw [hlist.unique (h.rep.lists.list l hl)] at hmem
    have hlev := (h.rep.filed_blk hb hbf l).1 hmem
    by_contra hc
    rw [sizeToLevel_eq_none (not_lt.1 hc) (by omega)] at hlev
    cases hlev
  · intro hmax
    obtain ⟨l, hlev⟩ := sizeToLevel_isSome hmax
    have hl := sizeToLevel_lt hlev
    refine ⟨⟨l, hl, fl l, h.rep.lists.list l hl, (h.rep.filed_blk hb hbf l).2 hlev⟩, ?_⟩
    intro size hpos hle _
    rw [h.rep.user_size hb] at hle
    exact h.alloc_serves hb hbf hmax hpos hle

/-- **Added regions are usable** exactly if their free block is below `2 ^ MM_MAX_BIT`. In every
state that a run of legal calls reaches, provided the regions added cover their alignment gap, a
further region that is accepted has one free block behind the region info, of all but 56 of its
bytes. It can be allocated from exactly if these bytes are fewer than `2 ^ MM_MAX_BIT`. -/
theorem added_region_usable (cfg : MmConfig) (mem : Words) (addr len : ℕ) (acts : List MmAct)
    (s₀ s : MmRun) (addr' len' : ℕ) (t : MmHead) (hmem : addr + len ≤ sizeRange)
    (hlen : len < sizeRange) (hinit : mmInit cfg mem addr len = some (.ok s₀))
    (hmeet : StepsMeet (mmStep cfg) (fun s a => s.Legal a ∧ a.CoversGap) s₀ acts)
    (hrun : runSteps (mmStep cfg) s₀ acts = some s) (hlegal : s.Legal (.addRegion addr' len'))
    (hgap : MmAct.CoversGap (.addRegion addr' len'))
    (hadd : krhinoAddMmRegion cfg s.head s.heap addr' len' = some (.success, t)) :
    mmIsFree (t.mem (mmAlignUp addr' + 24 + 12)) = true ∧
      mmGetBufSize t.mem (mmAlignUp addr' + 24) = addRegionLen addr' len' - 56 ∧
      (Usable cfg t (mmAlignUp addr' + 24) ↔ addRegionLen addr' len' < cfg.maxSize + 56) := by
  obtain ⟨⟨A, fl, av, hinv, hreg, r₀, hr₀, hlo₀, hhi₀⟩, -⟩ := runInv_of_run hmem hlen hinit hmeet hrun
  obtain ⟨hle, -, hap⟩ := hlegal
  have hhead : s.head < addr' ∨ addr' + len' ≤ s.head := by
    have := hap r₀ hr₀
    omega
  have hap' : ∀ p ∈ A, addr' + len' ≤ p.1.lo ∨ p.1.hi ≤ addr' := fun p hp =>
    hap p.1 ((mem_regions hreg).2 ⟨p.2, hp⟩)
  rcases hinv.addRegion hle hap' hgap hhead with ⟨st, hst, heq⟩ | ⟨t', fl', heq, hinv', -⟩
  · rw [hadd] at heq
    cases heq
    exact absurd rfl hst
  rw [hadd] at heq
  cases heq
  obtain ⟨b, hb⟩ : ∃ b, b = (addedRegion addr' len').mid := ⟨_, rfl⟩
  rw [← hb] at hinv'
  have hba : b.addr = mmAlignUp addr' + 24 := by rw [hb]; rfl
  have hbs : b.size = addRegionLen addr' len' - 56 := by
    rw [hb, addRegionLen_eq hgap]
    show mmAlignUp addr' + mmAlignDown (len' - regionGap addr') - mmAlignUp addr' - 56 = _
    omega
  have hbf : b.free = true := by rw [hb]; rfl
  have hbu : b ∈ userBlks ((addedRegion addr' len', [b]) :: A) := by simp [userBlks]
  have hok := hinv'.rep.layout.region (addedRegion addr' len', [b]) (by simp)
  obtain ⟨-, hfree, hsize⟩ := hok.header (b := b) (mem_blks.2 (.inr (.inl (by simp))))
  have hmin := hinv'.rep.min_size hbu
  rw [← hba]
  refine ⟨hfree.trans hbf, hsize.trans hbs, ?_⟩
  rw [hinv'.usable_iff hbu hbf]
  omega

/-- A region of 300 bytes at the small heap, whose block holds 240. -/
theorem added_region_usable_small :
    ∃ s₀ t, smallInit false = some (.ok s₀) ∧
      krhinoAddMmRegion (smallCfg false) s₀.head s₀.heap 8193 300 = some (.success, t) ∧
      mmIsFree (t.mem (mmAlignUp 8193 + 24 + 12)) = true ∧
      mmGetBufSize t.mem (mmAlignUp 8193 + 24) = addRegionLen 8193 300 - 56 ∧
      (Usable (smallCfg false) t (mmAlignUp 8193 + 24) ↔
        addRegionLen 8193 300 < (smallCfg false).maxSize + 56) := by
  obtain ⟨s₀, hs₀, hlegal, hadd⟩ := @exists_init false (fun s₀ =>
    s₀.Legal (.addRegion 8193 300) ∧
      (krhinoAddMmRegion (smallCfg false) s₀.head s₀.heap 8193 300).map Prod.fst = some .success)
    _ (by decide +kernel)
  obtain ⟨⟨st, t⟩, heq, hst⟩ := Option.map_eq_some_iff.1 hadd
  obtain rfl : st = .success := hst
  have hrange := sizeRange_eq
  exact ⟨s₀, t, hs₀, heq, added_region_usable (smallCfg false) (fun _ => 0) 4096 2048 [] s₀ s₀
    8193 300 t (by omega) (by omega) hs₀ trivial rfl hlegal (by decide +kernel) heq⟩

/-- A region of 8192 bytes is accepted, and a request of 3000 bytes that its block could hold is
refused. -/
theorem added_region_unfiled :
    ∃ s₀ t, smallInit false = some (.ok s₀) ∧ s₀.Legal (.addRegion 16384 8192) ∧
      MmAct.CoversGap (.addRegion 16384 8192) ∧
      krhinoAddMmRegion (smallCfg false) s₀.head s₀.heap 16384 8192 = some (.success, t) ∧
      ¬ Usable (smallCfg false) t (mmAlignUp 16384 + 24) := by
  obtain ⟨s₀, hs₀, hlegal, ⟨⟨st, t⟩, heq, hst, hsize, hnull⟩⟩ := @exists_init false (fun s₀ =>
    s₀.Legal (.addRegion 16384 8192) ∧
      ∃ r ∈ krhinoAddMmRegion (smallCfg false) s₀.head s₀.heap 16384 8192, r.1 = .success ∧
        3000 ≤ mmGetBufSize r.2.mem (mmAlignUp 16384 + 24) ∧
          (kMmAlloc (smallCfg false) r.2 3000).map Prod.fst = some 0)
    _ (by decide +kernel)
  obtain rfl : st = .success := hst
  refine ⟨s₀, t, hs₀, hlegal, by decide +kernel, heq, ?_⟩
  intro husable
  obtain ⟨p, u, halloc, hp⟩ := husable.serves 3000 (by norm_num) hsize (by decide)
  rw [halloc] at hnull
  exact hp (Option.some.inj hnull)

end GenieSdk.Analysis
