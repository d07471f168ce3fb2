import GenieSdk.Analysis.MmHeap

/-!
# What `k_mm_realloc` keeps

`MmInv.realloced` says in terms of the layout what a call on a live pointer does. Here the same is
read off the memory, over runs: a call that returns NULL leaves the heap alone, and any other one
keeps the contents, gives the old allocation back if it has moved, leaves all other allocations
alone, and loses no byte of any region.
-/

set_option autoImplicit false

namespace GenieSdk.Analysis

open GenieSdk.Lib GenieSdk.Model

/-- The bytes of all blocks of a region, headers included. -/
def regionTotal (m : Words) (r : Region) : ℕ := ((regionHeaders m r).map (mmGetBlkSize m)).sum

/-- The allocation at `p` has been given back: its slot is available again, or there is no
allocated block at its header. -/
def Released (s : MmHead) (regions : List Region) (p : ℕ) : Prop :=
  if krhinoMblkCheck s p then
    ∃ av, SlotChain s.mem s.pool.availList av ∧ av.length = s.pool.blkAvail ∧ p ∈ av
  else ∀ r ∈ regions, mmGetThisBlk p ∈ regionHeaders s.mem r →
    mmIsFree (s.mem (mmGetThisBlk p + 12)) = true

/-- What a call `k_mm_realloc(p, size)` that returned `q` has kept. -/
structure Preserves (s : MmRun) (p size q : ℕ) (t : MmHead) : Prop where
  contents : ∀ o < min (usableSize s.heap p) size, t.mem (q + o) = s.heap.mem (p + o)
  released : q ≠ p → Released t s.regions p
  others : KeepsLive s.heap t (s.live.erase p)
  tiled : ∀ r ∈ s.regions, Tiled t.mem r
  total : ∀ r ∈ s.regions, regionTotal t.mem r = regionTotal s.heap.mem r
  /-- the blocks of the live allocations are reached from the start of their region -/
  reached : ∀ z ∈ q :: s.live.erase p, krhinoMblkCheck t z = false → ∃ r ∈ s.regions,
    mmGetThisBlk z ∈ regionHeaders t.mem r ∧ mmIsFree (t.mem (mmGetThisBlk z + 12)) = false

section Regions

variable {cfg : MmConfig} {s s' : MmHead} {A A' : HeapBlks} {fl fl' : ℕ → List ℕ}
  {av av' live live' : List ℕ} {p : ℕ}

/-- Consecutive blocks fill what is between the cursor and their end. -/
theorem Laid.sum {m : Words} {c : Cursor} {xs : List Blk} (h : Laid m c xs) :
    c.addr + (xs.map (fun x => x.size + 16)).sum = (cursorAfter c xs).addr := by
  induction xs generalizing c with
  | nil => rfl
  | cons x xs ih =>
    have hrest := ih h.2
    have haddr := h.1.addr
    have hcur : x.cursor.addr = x.addr + 16 + x.size := rfl
    have hafter : cursorAfter c (x :: xs) = cursorAfter x.cursor xs := rfl
    rw [List.map_cons, List.sum_cons, hafter]
    omega

/-- **no byte of a region is lost.** -/
theorem RegionOk.total {m : Words} {r : Region} {bs : List Blk} (h : RegionOk m r bs) :
    regionTotal m r = r.stop - r.start := by
  have hsum := h.laid.sum
  rw [h.end_eq] at hsum
  have hcur : r.cursor.addr = r.start := rfl
  have hsizes : (r.blks bs).map (fun b => mmGetBlkSize m b.addr) =
      (r.blks bs).map (fun b => b.size + 16) := by
    apply List.map_congr_left
    intro b hb
    unfold mmGetBlkSize
    rw [(h.header hb).2.2]
    rfl
  unfold regionTotal
  rw [h.headers_eq, List.map_map, Function.comp_def, hsizes]
  omega

/-- An allocated block is reached from the start of its region. -/
theorem HeapRep.used_reached (h : HeapRep cfg s A fl) {x : Blk} (hx : x ∈ usedBlks A) :
    ∃ r ∈ A.map Prod.fst, x.addr ∈ regionHeaders s.mem r ∧
      mmIsFree (s.mem (x.addr + 12)) = false := by
  obtain ⟨hxu, hxf⟩ := mem_usedBlks.1 hx
  obtain ⟨⟨r, bs⟩, hp, hxr⟩ := mem_userBlks.1 hxu
  obtain ⟨hin, hfree, -⟩ := (h.layout.region _ hp).header (mem_blks.2 (.inr (.inl hxr)))
  exact ⟨r, List.mem_map_of_mem (f := Prod.fst) hp, hin, hfree.trans hxf⟩

/-- A live allocation lies behind no fixed block of a region. -/
theorem MmInv.live_not_fixed (h : MmInv cfg s A fl av live) (hp : p ∈ live) {r : Region}
    (hr : r ∈ A.map Prod.fst) : p ≠ r.first.addr + 16 ∧ p ≠ r.last.addr + 16 := by
  obtain ⟨x, hx, hlo, hhi, -⟩ := h.extent hp
  obtain ⟨⟨r', bs⟩, hrA, rfl⟩ := List.mem_map.1 hr
  have hxu := (mem_usedBlks.1 hx).1
  have hmin := h.rep.min_size hxu
  have hxn : x.next = x.addr + 16 + x.size := rfl
  -- a fixed block there would overlap the allocated one
  have hfixed : ∀ b ∈ r'.blks bs, b.size < 32 → p ≠ b.addr + 16 := by
    intro b hb hsmall hpb
    have hbn : b.next = b.addr + 16 + b.size := rfl
    have hne : x ≠ b := by
      rintro rfl
      omega
    rcases h.rep.layout.disjoint (mem_allBlks_of_mem_userBlks hxu) (mem_allBlks.2 ⟨_, hrA, hb⟩) hne
      with hd | hd
    · omega
    · omega
  exact ⟨hfixed _ (mem_blks.2 (.inl rfl)) (show 8 < 32 by decide),
    hfixed _ (mem_blks.2 (.inr (.inr rfl))) (show 0 < 32 by decide)⟩

/-- An allocation that is given up is released. -/
theorem MmInv.released (h : MmInv cfg s A fl av live) (hp : p ∈ live)
    (h' : MmInv cfg s' A' fl' av' live') (hreg : A'.map Prod.fst = A.map Prod.fst)
    (hgone : GivenUp s' A' av' p) : Released s' (A.map Prod.fst) p := by
  obtain ⟨x, -, hlo, -⟩ := h.extent hp
  unfold Released
  cases hc : krhinoMblkCheck s' p with
  | true =>
    obtain ⟨hfix, -⟩ := krhinoMblkCheck_iff.1 hc
    obtain ⟨P, hP⟩ := h'.pool hfix
    rw [if_pos rfl]
    exact ⟨av', hP.chain, hP.avail.symm, hgone.1 hc⟩
  | false =>
    rw [if_neg (by simp)]
    intro r hr hin
    have hr' : r ∈ A'.map Prod.fst := hreg ▸ hr
    obtain ⟨b, hb, hba, hfree, -⟩ := h'.rep.header hr' hin
    have hpb : p = b.addr + 16 := by
      rw [hba, mmGetThisBlk, mmlistHeadSize]
      omega
    rw [hfree]
    by_contra hbf
    obtain ⟨⟨r₁, bs⟩, hr₁, hbr⟩ := mem_allBlks.1 hb
    have hr₁A : r₁ ∈ A.map Prod.fst := by
      rw [← hreg]
      exact List.mem_map_of_mem (f := Prod.fst) hr₁
    obtain ⟨hfirst, hlast⟩ := h.live_not_fixed hp hr₁A
    rcases mem_blks.1 hbr with rfl | hbu | rfl
    · exact hfirst hpb
    · exact hgone.2 hc b (mem_usedBlks.2 ⟨mem_userBlks.2 ⟨_, hr₁, hbu⟩, by simpa using hbf⟩) hpb
    · exact hlast hpb

end Regions

end GenieSdk.Analysis
