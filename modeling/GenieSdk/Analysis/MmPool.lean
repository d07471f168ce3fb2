import GenieSdk.Analysis.MmAlloc

/-!
# The fixed pool and the live pointers

The pool of 32-byte slots lives in the payload of one allocated block. `MmInv` ties together the
heap, the pool and the pointers handed out and not yet given back: a live pointer is a slot of
the pool that is not available, or the payload of an allocated block other than the pool's.
-/

set_option autoImplicit false

namespace GenieSdk.Analysis

open GenieSdk.Lib GenieSdk.Model

/-- From `h` the first words of available slots lead through `av`. What the last slot holds is
never read, since `blk_avail` counts. -/
def SlotChain (m : Words) : ℕ → List ℕ → Prop
  | _, [] => True
  | h, p :: ps => h = p ∧ SlotChain m (m p) ps

/-- A chain depends on the words of its slots. -/
theorem SlotChain.congr {m m' : Words} {h : ℕ} {av : List ℕ} (hc : SlotChain m h av)
    (hm : ∀ p ∈ av, m' p = m p) : SlotChain m' h av := by
  induction av generalizing h with
  | nil => trivial
  | cons p ps ih =>
    obtain ⟨rfl, hrest⟩ := hc
    refine ⟨rfl, ?_⟩
    rw [hm h (by simp)]
    exact ih hrest (fun q hq => hm q (List.mem_cons_of_mem _ hq))

def Slot (s : MmHead) (p : ℕ) : Prop :=
  ∃ i, p = s.pool.poolStart + 32 * i ∧ p + 32 ≤ s.pool.poolEnd

/-- The pool in the block `P`, with the available slots `av`. -/
structure PoolRep (s : MmHead) (A : HeapBlks) (P : Blk) (av : List ℕ) : Prop where
  blk : P ∈ usedBlks A
  fixPool : s.fixPool = P.addr + 16
  start_le : P.addr + 16 ≤ s.pool.poolStart
  end_le : s.pool.poolEnd ≤ P.next
  start_al : s.pool.poolStart % 8 = 0
  chain : SlotChain s.mem s.pool.availList av
  avail : s.pool.blkAvail = av.length
  nodup : av.Nodup
  slot : ∀ p ∈ av, Slot s p

structure MmInv (cfg : MmConfig) (s : MmHead) (A : HeapBlks) (fl : ℕ → List ℕ) (av live : List ℕ) :
    Prop where
  rep : HeapRep cfg s A fl
  pool : s.fixPool ≠ 0 → ∃ P, PoolRep s A P av
  live_nodup : live.Nodup
  live_blk : ∀ p ∈ live, krhinoMblkCheck s p = false →
    ∃ x ∈ usedBlks A, p = x.addr + 16 ∧ p ≠ s.fixPool
  live_slot : ∀ p ∈ live, krhinoMblkCheck s p = true → Slot s p ∧ p ∉ av

/-- The bytes a client may use behind a pointer it was given. -/
def usableSize (s : MmHead) (p : ℕ) : ℕ :=
  if krhinoMblkCheck s p then mmBlkSize else mmGetBufSize s.mem (mmGetThisBlk p)

/-- The check says whether the address is in the pool. -/
theorem krhinoMblkCheck_iff {s : MmHead} {p : ℕ} :
    krhinoMblkCheck s p = true ↔ s.fixPool ≠ 0 ∧ s.pool.poolStart ≤ p ∧ p < s.pool.poolEnd := by
  simp [krhinoMblkCheck]

/-- A slot of the pool passes it. -/
theorem Slot.check {s : MmHead} {p : ℕ} (h : Slot s p) (hfix : s.fixPool ≠ 0) :
    krhinoMblkCheck s p = true := by
  obtain ⟨i, hi, hle⟩ := h
  exact krhinoMblkCheck_iff.2 ⟨hfix, by omega, by omega⟩

/-- The block of a payload. -/
theorem mmGetThisBlk_payload (a : ℕ) : mmGetThisBlk (a + 16) = a := by
  unfold mmGetThisBlk mmlistHeadSize
  omega

section Inv

variable {cfg : MmConfig} {s s' : MmHead} {A A' : HeapBlks} {fl fl' : ℕ → List ℕ}
  {av av' live live' : List ℕ} {p q : ℕ} {x P : Blk} {old new : List Blk}

/-- The payload of a block other than the pool's is not in the pool. -/
theorem MmInv.check_blk (h : MmInv cfg s A fl av live) (hx : x ∈ usedBlks A)
    (hne : x.addr + 16 ≠ s.fixPool) : krhinoMblkCheck s (x.addr + 16) = false := by
  by_contra hc
  obtain ⟨hfix, hlo, hhi⟩ := krhinoMblkCheck_iff.1 (by simpa using hc)
  obtain ⟨P, hP⟩ := h.pool hfix
  have hPf := hP.fixPool
  have hPs := hP.start_le
  have hPe := hP.end_le
  have hxn : x.next = x.addr + 16 + x.size := rfl
  have hmin := h.rep.min_size (mem_usedBlks.1 hx).1
  rcases h.rep.used_disjoint hx (mem_allBlks_of_mem_userBlks (mem_usedBlks.1 hP.blk).1)
    (show x.addr ≠ P.addr by omega) with hd | hd
  · omega
  · omega

/-- Of a block, a client may use the payload. -/
theorem HeapRep.usable_blk (h : HeapRep cfg s A fl) (hx : x ∈ usedBlks A)
    (hc : krhinoMblkCheck s (x.addr + 16) = false) : usableSize s (x.addr + 16) = x.size := by
  unfold usableSize
  rw [hc, if_neg (by simp), mmGetThisBlk_payload, h.user_size (mem_usedBlks.1 hx).1]

/-- A slot has 32 bytes. -/
theorem usable_slot (hc : krhinoMblkCheck s p = true) : usableSize s p = 32 := by
  simp [usableSize, hc, mmBlkSize]

/-- **The extent of a live allocation**: inside one allocated block's payload. -/
theorem MmInv.extent (h : MmInv cfg s A fl av live) (hp : p ∈ live) :
    ∃ x ∈ usedBlks A, x.addr + 16 ≤ p ∧ p + usableSize s p ≤ x.next ∧ p % 8 = 0 := by
  cases hc : krhinoMblkCheck s p with
  | true =>
    obtain ⟨hfix, -, -⟩ := krhinoMblkCheck_iff.1 hc
    obtain ⟨P, hP⟩ := h.pool hfix
    obtain ⟨⟨i, hi, hle⟩, -⟩ := h.live_slot p hp hc
    have hPs := hP.start_le
    have hPe := hP.end_le
    have hPa := hP.start_al
    rw [usable_slot hc]
    exact ⟨P, hP.blk, by omega, by omega, by omega⟩
  | false =>
    obtain ⟨x, hx, rfl, -⟩ := h.live_blk p hp hc
    have hb := h.rep.blk_bounds (mem_allBlks_of_mem_userBlks (mem_usedBlks.1 hx).1)
    rw [h.rep.usable_blk hx hc]
    exact ⟨x, hx, le_refl _, le_refl _, by omega⟩

/-- No live pointer is null. -/
theorem MmInv.live_pos (h : MmInv cfg s A fl av live) (hp : p ∈ live) : p ≠ 0 := by
  obtain ⟨x, -, hlo, -, -⟩ := h.extent hp
  omega

/-- What is in a live block is not in the pool's block. -/
theorem MmInv.live_apart_pool (h : MmInv cfg s A fl av live) (hP : PoolRep s A P av) (hp : p ∈ live)
    (hc : krhinoMblkCheck s p = false) :
    p + usableSize s p ≤ s.pool.poolStart ∨ s.pool.poolEnd ≤ p := by
  obtain ⟨x, hx, rfl, hne⟩ := h.live_blk p hp hc
  rw [h.rep.usable_blk hx hc]
  have hPf := hP.fixPool
  have hPs := hP.start_le
  have hPe := hP.end_le
  have hxn : x.next = x.addr + 16 + x.size := rfl
  rcases h.rep.used_disjoint hx (mem_allBlks_of_mem_userBlks (mem_usedBlks.1 hP.blk).1)
    (show x.addr ≠ P.addr by omega) with hd | hd
  · exact .inl (by omega)
  · exact .inr (by omega)

/-- A live slot and any other live allocation are disjoint. -/
theorem MmInv.slot_disjoint (h : MmInv cfg s A fl av live) (hp : p ∈ live) (hq : q ∈ live)
    (hne : p ≠ q) (hcp : krhinoMblkCheck s p = true) :
    p + usableSize s p ≤ q ∨ q + usableSize s q ≤ p := by
  obtain ⟨hfix, -, -⟩ := krhinoMblkCheck_iff.1 hcp
  obtain ⟨P, hP⟩ := h.pool hfix
  obtain ⟨⟨i, hi, hle⟩, -⟩ := h.live_slot p hp hcp
  rw [usable_slot hcp]
  cases hcq : krhinoMblkCheck s q with
  | true =>
    obtain ⟨⟨j, hj, -⟩, -⟩ := h.live_slot q hq hcq
    rw [usable_slot hcq]
    have hij : i ≠ j := by
      rintro rfl
      exact hne (by omega)
    omega
  | false =>
    rcases h.live_apart_pool hP hq hcq with hd | hd
    · exact .inr (by omega)
    · exact .inl (by omega)

/-- **Live allocations are disjoint.** -/
theorem MmInv.live_disjoint (h : MmInv cfg s A fl av live) (hp : p ∈ live) (hq : q ∈ live)
    (hne : p ≠ q) : p + usableSize s p ≤ q ∨ q + usableSize s q ≤ p := by
  cases hcp : krhinoMblkCheck s p with
  | true => exact h.slot_disjoint hp hq hne hcp
  | false =>
    cases hcq : krhinoMblkCheck s q with
    | true => exact (h.slot_disjoint hq hp hne.symm hcq).symm
    | false =>
      obtain ⟨x, hx, rfl, -⟩ := h.live_blk p hp hcp
      obtain ⟨y, hy, rfl, -⟩ := h.live_blk q hq hcq
      rw [h.rep.usable_blk hx hcp, h.rep.usable_blk hy hcq]
      have hxn : x.next = x.addr + 16 + x.size := rfl
      have hyn : y.next = y.addr + 16 + y.size := rfl
      rcases h.rep.used_disjoint hx (mem_allBlks_of_mem_userBlks (mem_usedBlks.1 hy).1)
        (show x.addr ≠ y.addr by omega) with hd | hd
      · exact .inl (by omega)
      · exact .inr (by omega)

/-! ## Operations -/

/-- The pool survives what does not touch its block. -/
theorem PoolRep.turns (hP : PoolRep s A P av) (ht : Turns s A s' A' old new) (hold : P ∉ old) :
    PoolRep s' A' P av := by
  have hPs := hP.start_le
  have hPe := hP.end_le
  refine ⟨(ht.used P).2 (.inl ⟨hP.blk, hold⟩), ?_, ?_, ?_, ?_, ?_, ?_, hP.nodup, ?_⟩
  · rw [ht.fixPool]
    exact hP.fixPool
  · rw [ht.pool]
    exact hPs
  · rw [ht.pool]
    exact hPe
  · rw [ht.pool]
    exact hP.start_al
  · rw [ht.pool]
    apply hP.chain.congr
    intro p hp
    obtain ⟨i, hi, hle⟩ := hP.slot p hp
    exact ht.payload P hP.blk hold p (by omega) (by omega)
  · rw [ht.pool]
    exact hP.avail
  · intro p hp
    unfold Slot
    rw [ht.pool]
    exact hP.slot p hp

/-- The pool stays where it is. -/
theorem Turns.check (ht : Turns s A s' A' old new) (p : ℕ) :
    krhinoMblkCheck s' p = krhinoMblkCheck s p := by
  simp [krhinoMblkCheck, ht.fixPool, ht.pool]

/-- **The invariant under a turn-over of blocks** that leaves the pool's block alone. -/
theorem MmInv.turns (h : MmInv cfg s A fl av live) (hrep : HeapRep cfg s' A' fl')
    (ht : Turns s A s' A' old new) (hold : ∀ b ∈ old, b.addr + 16 ≠ s.fixPool)
    (hnd : live'.Nodup)
    (hlive : ∀ p ∈ live', (p ∈ live ∧ ∀ b ∈ old, p ≠ b.addr + 16) ∨
      ∃ b ∈ new, p = b.addr + 16 ∧ p ≠ s.fixPool) : MmInv cfg s' A' fl' av live' := by
  have hpool : s'.fixPool ≠ 0 → ∃ P, PoolRep s' A' P av := by
    intro hfix
    obtain ⟨P, hP⟩ := h.pool (by rwa [← ht.fixPool])
    exact ⟨P, hP.turns ht (fun hc => hold P hc hP.fixPool.symm)⟩
  refine ⟨hrep, hpool, hnd, ?_, ?_⟩
  · intro p hp hc
    rw [ht.fixPool]
    rcases hlive p hp with ⟨hpl, hpo⟩ | ⟨b, hb, hpb, hne⟩
    · rw [ht.check] at hc
      obtain ⟨x, hx, hpx, hne⟩ := h.live_blk p hpl hc
      exact ⟨x, (ht.used x).2 (.inl ⟨hx, fun hxo => hpo x hxo hpx⟩), hpx, hne⟩
    · exact ⟨b, (ht.used b).2 (.inr hb), hpb, hne⟩
  · intro p hp hc
    have hc' := hc
    rw [ht.check] at hc
    rcases hlive p hp with ⟨hpl, -⟩ | ⟨b, hb, rfl, hne⟩
    · have hslot := h.live_slot p hpl hc
      unfold Slot
      rw [ht.pool]
      exact hslot
    · -- a block handed out is not in the pool
      have hinv : MmInv cfg s' A' fl' av [] := ⟨hrep, hpool, List.nodup_nil, by simp, by simp⟩
      have := hinv.check_blk ((ht.used b).2 (.inr hb)) (by rwa [ht.fixPool])
      rw [this] at hc'
      cases hc'

/-- A block that was just handed out is not live yet and is not the pool's. -/
theorem MmInv.fresh (h : MmInv cfg s A fl av live) (hrep : HeapRep cfg s' A' fl')
    (ht : Turns s A s' A' [] [x]) : x.addr + 16 ∉ live ∧ x.addr + 16 ≠ s.fixPool := by
  have hxA' : x ∈ usedBlks A' := (ht.used x).2 (.inr (by simp))
  have hxall := mem_allBlks_of_mem_userBlks (mem_usedBlks.1 hxA').1
  have hapart : ∀ y ∈ usedBlks A, x.addr + 16 < y.addr + 16 ∨ y.next ≤ x.addr := by
    intro y hy
    have hyA' : y ∈ usedBlks A' := (ht.used y).2 (.inl ⟨hy, by simp⟩)
    have hne : x ≠ y := by
      rintro rfl
      simpa using ht.fresh x (by simp) hy
    have hxn : x.next = x.addr + 16 + x.size := rfl
    rcases hrep.layout.disjoint hxall (mem_allBlks_of_mem_userBlks (mem_usedBlks.1 hyA').1) hne
      with hd | hd
    · exact .inl (by omega)
    · exact .inr hd
  constructor
  · intro hlive
    obtain ⟨y, hy, hlo, hhi, -⟩ := h.extent hlive
    have hyn : y.next = y.addr + 16 + y.size := rfl
    rcases hapart y hy with hd | hd
    · omega
    · omega
  · intro hfix
    obtain ⟨P, hP⟩ := h.pool (by omega)
    have hPf := hP.fixPool
    have hPn : P.next = P.addr + 16 + P.size := rfl
    rcases hapart P hP.blk with hd | hd
    · omega
    · omega

/-- The size bounds of a result: a request that does not wrap is met, one that wraps is not. -/
structure Serves (s : MmHead) (p size : ℕ) : Prop where
  enough : size + 7 < sizeRange → size ≤ usableSize s p
  short : sizeRange ≤ size + 7 → usableSize s p < size

/-- The size of a result, from the size of its block. -/
theorem HeapRep.serves (h : HeapRep cfg s A fl) (hx : x ∈ usedBlks A)
    (hc : krhinoMblkCheck s (x.addr + 16) = false) {size : ℕ} (hsize : size < sizeRange)
    (hlo : roundReq size ≤ x.size) (hhi : x.size < roundReq size + 48) :
    Serves s (x.addr + 16) size := by
  have hr := sizeRange_eq
  obtain ⟨-, -, -, hfit, hwrap⟩ := roundReq_spec hsize
  rw [← h.usable_blk hx hc] at hlo hhi
  refine ⟨?_, ?_⟩
  · intro hlt
    exact (hfit hlt).trans hlo
  · intro hle
    have := hwrap hle
    omega

/-- `k_mm_alloc` past the pool. -/
theorem MmInv.tlfAlloc (h : MmInv cfg s A fl av live) {size : ℕ} (hsize : size < sizeRange) :
    kMmTlfAlloc cfg s size = some (0, s) ∨
      ∃ s' A' fl' x, kMmTlfAlloc cfg s size = some (x.addr + 16, s') ∧
        MmInv cfg s' A' fl' av ((x.addr + 16) :: live) ∧ Turns s A s' A' [] [x] ∧
        roundReq size ≤ x.size ∧ Serves s' (x.addr + 16) size := by
  rcases h.rep.tlfAlloc hsize with h0 | ⟨s', A', fl', x, heq, hrep, ht, hlo, hhi⟩
  · exact .inl h0
  · obtain ⟨hnl, hnp⟩ := h.fresh hrep ht
    have hinv : MmInv cfg s' A' fl' av ((x.addr + 16) :: live) := by
      apply h.turns hrep ht
      · simp
      · exact List.nodup_cons.2 ⟨hnl, h.live_nodup⟩
      · intro p hp
        rcases List.mem_cons.1 hp with rfl | hp
        · exact .inr ⟨x, by simp, rfl, hnp⟩
        · exact .inl ⟨hp, by simp⟩
    have hx : x ∈ usedBlks A' := (ht.used x).2 (.inr (by simp))
    have hc := hinv.check_blk hx (by rwa [ht.fixPool])
    exact .inr ⟨s', A', fl', x, heq, hinv, ht, hlo, hrep.serves hx hc hsize hlo hhi⟩

/-- The allocations `qs` keep their size and what is stored in them. -/
def KeepsLive (s s' : MmHead) (qs : List ℕ) : Prop :=
  ∀ q ∈ qs, usableSize s' q = usableSize s q ∧
    ∀ a, q ≤ a → a < q + usableSize s q → s'.mem a = s.mem a

/-- Two steps that keep the contents of live blocks. -/
theorem KeepsLive.trans {s₁ s₂ s₃ : MmHead} {qs : List ℕ} (h₁ : KeepsLive s₁ s₂ qs)
    (h₂ : KeepsLive s₂ s₃ qs) : KeepsLive s₁ s₃ qs := by
  intro q hq
  obtain ⟨hu₁, hm₁⟩ := h₁ q hq
  obtain ⟨hu₂, hm₂⟩ := h₂ q hq
  refine ⟨hu₂.trans hu₁, ?_⟩
  intro a hlo hhi
  rw [hm₂ a hlo (by omega), hm₁ a hlo hhi]

/-- A turn-over of blocks keeps the live allocations it does not give up. -/
theorem MmInv.keeps (h : MmInv cfg s A fl av live) (hrep : HeapRep cfg s' A' fl')
    (ht : Turns s A s' A' old new) (hold : ∀ b ∈ old, b.addr + 16 ≠ s.fixPool) {qs : List ℕ}
    (hqs : ∀ q ∈ qs, q ∈ live ∧ ∀ b ∈ old, q ≠ b.addr + 16) : KeepsLive s s' qs := by
  intro q hq
  obtain ⟨hql, hqo⟩ := hqs q hq
  cases hc : krhinoMblkCheck s q with
  | true =>
    obtain ⟨hfix, -, -⟩ := krhinoMblkCheck_iff.1 hc
    obtain ⟨P, hP⟩ := h.pool hfix
    obtain ⟨⟨i, hi, hle⟩, -⟩ := h.live_slot q hql hc
    have hPs := hP.start_le
    have hPe := hP.end_le
    rw [usable_slot hc, usable_slot (by rw [ht.check]; exact hc)]
    refine ⟨rfl, ?_⟩
    intro a hlo hhi
    exact ht.payload P hP.blk (fun hPo => hold P hPo hP.fixPool.symm) a (by omega) (by omega)
  | false =>
    obtain ⟨x, hx, rfl, -⟩ := h.live_blk q hql hc
    have hxo : x ∉ old := fun hxo => hqo x hxo rfl
    have hx' : x ∈ usedBlks A' := (ht.used x).2 (.inl ⟨hx, hxo⟩)
    rw [h.rep.usable_blk hx hc, hrep.usable_blk hx' (by rw [ht.check]; exact hc)]
    refine ⟨rfl, ?_⟩
    intro a hlo hhi
    exact ht.payload x hx hxo a hlo hhi

/-- **writes into live allocations** keep the invariant. -/
theorem MmInv.writeLive (h : MmInv cfg s A fl av live) {m' : Words}
    (hm : ∀ a, m' a ≠ s.mem a → ∃ p ∈ live, p ≤ a ∧ a < p + usableSize s p) :
    MmInv cfg { s with mem := m' } A fl av live := by
  have hrep : HeapRep cfg { s with mem := m' } A fl := by
    apply h.rep.writePayload
    intro a ha
    obtain ⟨p, hp, hlo, hhi⟩ := hm a ha
    obtain ⟨x, hx, hxlo, hxhi, -⟩ := h.extent hp
    exact ⟨x, hx, by omega, by omega⟩
  refine ⟨hrep, ?_, h.live_nodup, h.live_blk, h.live_slot⟩
  intro hfix
  obtain ⟨P, hP⟩ := h.pool hfix
  refine ⟨P, hP.blk, hP.fixPool, hP.start_le, hP.end_le, hP.start_al, ?_, hP.avail, hP.nodup, hP.slot⟩
  apply hP.chain.congr
  intro q hq
  by_contra hne
  obtain ⟨p, hp, hlo, hhi⟩ := hm q hne
  obtain ⟨i, hi, hle⟩ := hP.slot q hq
  cases hc : krhinoMblkCheck s p with
  | true =>
    obtain ⟨⟨j, hj, -⟩, hnot⟩ := h.live_slot p hp hc
    rw [usable_slot hc] at hhi
    have hij : p = q := by omega
    exact hnot (hij ▸ hq)
  | false =>
    rcases h.live_apart_pool hP hp hc with hd | hd
    · omega
    · omega

/-- The heap depends on the words, the lists and the bitmap. -/
theorem HeapRep.congr_head (h : HeapRep cfg s A fl) (hmem : s'.mem = s.mem)
    (hlist : s'.freelist = s.freelist) (hbit : s'.freeBitmap = s.freeBitmap) :
    HeapRep cfg s' A fl := by
  refine ⟨?_, ?_, h.filed⟩
  · rw [hmem]
    exact h.layout
  · refine h.lists.congr hlist hbit ?_
    intro l y hy
    rw [hmem]
    exact ⟨rfl, rfl⟩

/-- Statistics do not matter. -/
theorem MmInv.congr_head (h : MmInv cfg s A fl av live) (hmem : s'.mem = s.mem)
    (hlist : s'.freelist = s.freelist) (hbit : s'.freeBitmap = s.freeBitmap)
    (hfix : s'.fixPool = s.fixPool) (hpool : s'.pool = s.pool) : MmInv cfg s' A fl av live := by
  have hcheck : ∀ p, krhinoMblkCheck s' p = krhinoMblkCheck s p := by
    intro p
    simp [krhinoMblkCheck, hfix, hpool]
  have hslot : ∀ p, Slot s' p = Slot s p := by
    intro p
    rw [Slot, Slot, hpool]
  refine ⟨h.rep.congr_head hmem hlist hbit, ?_, h.live_nodup, ?_, ?_⟩
  · intro hne
    obtain ⟨P, hP⟩ := h.pool (by rwa [← hfix])
    refine ⟨P, hP.blk, hfix.trans hP.fixPool, ?_, ?_, ?_, ?_, ?_, hP.nodup, ?_⟩
    · rw [hpool]
      exact hP.start_le
    · rw [hpool]
      exact hP.end_le
    · rw [hpool]
      exact hP.start_al
    · rw [hpool, hmem]
      exact hP.chain
    · rw [hpool]
      exact hP.avail
    · intro p hp
      rw [hslot]
      exact hP.slot p hp
  · intro p hp hc
    rw [hcheck] at hc
    rw [hfix]
    exact h.live_blk p hp hc
  · intro p hp hc
    rw [hcheck] at hc
    rw [hslot]
    exact h.live_slot p hp hc

/-- Taking a slot of the pool. SRCLINE: k_mm.c:288-306, k_mm_blk.c:81-106 -/
theorem MmInv.smallblkAlloc (h : MmInv cfg s A fl av live) (hfix : s.fixPool ≠ 0)
    (havail : 0 < s.pool.blkAvail) :
    ∃ p av' s', kMmSmallblkAlloc cfg s = (p, s') ∧ p ≠ 0 ∧ MmInv cfg s' A fl av' (p :: live) ∧
      p ∉ live ∧ usableSize s' p = 32 ∧ KeepsLive s s' live ∧ s'.fixPool = s.fixPool := by
  obtain ⟨P, hP⟩ := h.pool hfix
  have hlen := hP.avail
  cases av with
  | nil =>
    simp only [List.length_nil] at hlen
    omega
  | cons p av' =>
    obtain ⟨hhead, hchain⟩ := hP.chain
    obtain ⟨hpnot, hnd⟩ := List.nodup_cons.1 hP.nodup
    have hpslot := hP.slot p (by simp)
    have hpc := hpslot.check hfix
    have hplive : p ∉ live := fun hp => (h.live_slot p hp hpc).2 (by simp)
    have hp0 : p ≠ 0 := by
      obtain ⟨i, hi, -⟩ := hpslot
      have := hP.start_le
      omega
    refine ⟨p, av', addsize cfg
      { s with pool := { s.pool with availList := s.mem p, blkAvail := s.pool.blkAvail - 1 } }
      mmBlkSize 0, ?_, hp0, ?_, hplive, ?_, ?_, rfl⟩
    · unfold kMmSmallblkAlloc krhinoMblkAlloc
      rw [if_pos havail, hhead]
    · refine ⟨h.rep.congr_head rfl rfl rfl, ?_, List.nodup_cons.2 ⟨hplive, h.live_nodup⟩, ?_, ?_⟩
      · intro _
        refine ⟨P, hP.blk, hP.fixPool, hP.start_le, hP.end_le, hP.start_al, hchain, ?_, hnd, ?_⟩
        · show s.pool.blkAvail - 1 = av'.length
          rw [hlen]
          simp
        · exact fun q hq => hP.slot q (List.mem_cons_of_mem _ hq)
      · intro q hq hc
        rcases List.mem_cons.1 hq with rfl | hq
        · have hc' : krhinoMblkCheck s q = false := hc
          rw [hpc] at hc'
          cases hc'
        · exact h.live_blk q hq hc
      · intro q hq hc
        rcases List.mem_cons.1 hq with rfl | hq
        · exact ⟨hpslot, hpnot⟩
        · obtain ⟨hslot, hnot⟩ := h.live_slot q hq hc
          exact ⟨hslot, fun hqa => hnot (List.mem_cons_of_mem _ hqa)⟩
    · exact usable_slot hpc
    · exact fun q _ => ⟨rfl, fun _ _ _ => rfl⟩

/-- Giving a slot back. SRCLINE: k_mm.c:307-321, k_mm_blk.c:108-126 -/
theorem MmInv.smallblkFree (h : MmInv cfg s A fl av live) (hp : p ∈ live)
    (hc : krhinoMblkCheck s p = true) :
    MmInv cfg (kMmSmallblkFree s p) A fl (p :: av) (live.erase p) ∧
      KeepsLive s (kMmSmallblkFree s p) (live.erase p) := by
  obtain ⟨hfix, -, -⟩ := krhinoMblkCheck_iff.1 hc
  obtain ⟨hslot, hnot⟩ := h.live_slot p hp hc
  have hw : ∀ a, setWord s.mem p s.pool.availList a ≠ s.mem a → a = p := by
    intro a ha
    by_contra hne
    exact ha (setWord_ne hne)
  have hinv : MmInv cfg { s with mem := setWord s.mem p s.pool.availList } A fl av live := by
    apply h.writeLive
    intro a ha
    obtain rfl := hw a ha
    exact ⟨a, hp, le_refl _, by rw [usable_slot hc]; omega⟩
  obtain ⟨P, hP⟩ := hinv.pool hfix
  have hmemE : ∀ q, q ∈ live.erase p → q ≠ p ∧ q ∈ live := fun q hq =>
    (h.live_nodup.mem_erase_iff).1 hq
  refine ⟨⟨hinv.rep.congr_head rfl rfl rfl, ?_, h.live_nodup.erase p, ?_, ?_⟩, ?_⟩
  · intro _
    refine ⟨P, hP.blk, hP.fixPool, hP.start_le, hP.end_le, hP.start_al, ⟨rfl, ?_⟩, ?_,
      List.nodup_cons.2 ⟨hnot, hP.nodup⟩, ?_⟩
    · show SlotChain (setWord s.mem p s.pool.availList) (setWord s.mem p s.pool.availList p) av
      rw [setWord_same]
      exact hP.chain
    · show s.pool.blkAvail + 1 = (p :: av).length
      rw [List.length_cons]
      exact congrArg (· + 1) hP.avail
    · intro q hq
      rcases List.mem_cons.1 hq with rfl | hq
      · exact hslot
      · exact hP.slot q hq
  · intro q hq hcq
    exact h.live_blk q (hmemE q hq).2 hcq
  · intro q hq hcq
    obtain ⟨hsl, hna⟩ := h.live_slot q (hmemE q hq).2 hcq
    refine ⟨hsl, ?_⟩
    intro hc'
    rcases List.mem_cons.1 hc' with rfl | hc'
    · exact (hmemE q hq).1 rfl
    · exact hna hc'
  · intro q hq
    obtain ⟨hqp, hql⟩ := hmemE q hq
    have hdis := h.live_disjoint hp hql hqp.symm
    rw [usable_slot hc] at hdis
    have hout : ∀ a, q ≤ a → a < q + usableSize s q →
        (kMmSmallblkFree s p).mem a = s.mem a := by
      intro a hlo hhi
      exact setWord_ne (by omega)
    refine ⟨?_, hout⟩
    have hcheck : krhinoMblkCheck (kMmSmallblkFree s p) q = krhinoMblkCheck s q := rfl
    cases hcq : krhinoMblkCheck s q with
    | true => rw [usable_slot hcq, usable_slot (hcheck.trans hcq)]
    | false =>
      obtain ⟨y, hy, rfl, -⟩ := h.live_blk q hql hcq
      have hrep' : HeapRep cfg (kMmSmallblkFree s p) A fl := hinv.rep.congr_head rfl rfl rfl
      rw [h.rep.usable_blk hy hcq, hrep'.usable_blk hy (hcheck.trans hcq)]

/-- **`k_mm_alloc` returns**, NULL or a new live pointer. SRCLINE: k_mm.c:394-516 -/
theorem MmInv.alloc (h : MmInv cfg s A fl av live) {size : ℕ} (hsize : size < sizeRange) :
    ∃ p s' A' fl' av', kMmAlloc cfg s size = some (p, s') ∧
      MmInv cfg s' A' fl' av' (if p = 0 then live else p :: live) ∧
      A'.map Prod.fst = A.map Prod.fst ∧ KeepsLive s s' live ∧ (p ≠ 0 → Serves s' p size) ∧
      s'.fixPool = s.fixPool := by
  have hsame : KeepsLive s s live := fun q _ => ⟨rfl, fun _ _ _ => rfl⟩
  have htlf : ∃ p s' A' fl' av', kMmTlfAlloc cfg s size = some (p, s') ∧
      MmInv cfg s' A' fl' av' (if p = 0 then live else p :: live) ∧
      A'.map Prod.fst = A.map Prod.fst ∧ KeepsLive s s' live ∧ (p ≠ 0 → Serves s' p size) ∧
      s'.fixPool = s.fixPool := by
    rcases h.tlfAlloc hsize with h0 | ⟨s', A', fl', x, heq, hinv, ht, -, hserve⟩
    · exact ⟨0, s, A, fl, av, h0, h, rfl, hsame, by simp, rfl⟩
    · refine ⟨x.addr + 16, s', A', fl', av, heq, hinv, ht.regions, ?_, fun _ => hserve, ht.fixPool⟩
      exact h.keeps hinv.rep ht (by simp) (fun q hq => ⟨hq, by simp⟩)
  unfold kMmAlloc
  by_cases h0 : size = 0
  · rw [if_pos h0]
    exact ⟨0, s, A, fl, av, rfl, h, rfl, hsame, by simp, rfl⟩
  rw [if_neg h0]
  by_cases hpool : s.fixPool ≠ 0 ∧ size ≤ mmBlkSize ∧ 0 < s.pool.blkAvail
  · obtain ⟨p, av', s', heq, hp0, hinv, -, husable, hkeep, hfix⟩ := h.smallblkAlloc hpool.1 hpool.2.2
    rw [if_pos hpool, heq]
    refine ⟨p, s', A, fl, av', by simp [hp0], by simpa [hp0] using hinv, rfl, hkeep, ?_, hfix⟩
    intro _
    have hle : size ≤ 32 := hpool.2.1
    have hr := sizeRange_eq
    exact ⟨fun _ => by omega, fun _ => by omega⟩
  · rw [if_neg hpool]
    exact htlf

/-- `p` is not live any more: its slot is available again, or no allocated block has it as its
payload. -/
def GivenUp (s : MmHead) (A : HeapBlks) (av : List ℕ) (p : ℕ) : Prop :=
  (krhinoMblkCheck s p = true → p ∈ av) ∧
    (krhinoMblkCheck s p = false → ∀ x ∈ usedBlks A, p ≠ x.addr + 16)

/-- **`k_mm_free` of a live pointer returns.** SRCLINE: k_mm.c:517-595 -/
theorem MmInv.free (h : MmInv cfg s A fl av live) (hp : p ∈ live) :
    ∃ s' A' fl' av', kMmFree cfg s p = some s' ∧ MmInv cfg s' A' fl' av' (live.erase p) ∧
      A'.map Prod.fst = A.map Prod.fst ∧ KeepsLive s s' (live.erase p) ∧ GivenUp s' A' av' p ∧
      s'.fixPool = s.fixPool := by
  have hp0 := h.live_pos hp
  cases hc : krhinoMblkCheck s p with
  | true =>
    obtain ⟨hinv, hkeep⟩ := h.smallblkFree hp hc
    refine ⟨_, A, fl, p :: av, ?_, hinv, rfl, hkeep, ⟨fun _ => by simp, fun hc' => ?_⟩, rfl⟩
    · unfold kMmFree
      rw [if_neg hp0, if_pos hc]
    · have hc'' : krhinoMblkCheck s p = false := hc'
      rw [hc] at hc''
      cases hc''
  | false =>
    obtain ⟨x, hx, rfl, hne⟩ := h.live_blk p hp hc
    obtain ⟨s', A', fl', heq, hrep, ht⟩ := h.rep.free hx hc
    have hsub : ∀ q ∈ live.erase (x.addr + 16), q ∈ live ∧ ∀ b ∈ [x], q ≠ b.addr + 16 := by
      intro q hq
      obtain ⟨hqp, hql⟩ := (h.live_nodup.mem_erase_iff).1 hq
      exact ⟨hql, by simpa using hqp⟩
    have hold : ∀ b ∈ [x], b.addr + 16 ≠ s.fixPool := by simpa using hne
    have hgone : GivenUp s' A' av (x.addr + 16) := by
      refine ⟨fun hc' => ?_, ?_⟩
      · rw [ht.check, hc] at hc'
        cases hc'
      · intro _ y hy hxy
        obtain ⟨hyA, hyx⟩ := ((ht.used y).1 hy).resolve_right (by simp)
        apply hyx
        rw [List.mem_singleton]
        exact h.rep.eq_of_addr (mem_allBlks_of_mem_userBlks (mem_usedBlks.1 hyA).1)
          (mem_allBlks_of_mem_userBlks (mem_usedBlks.1 hx).1) (by omega)
    exact ⟨s', A', fl', av, heq, h.turns hrep ht hold (h.live_nodup.erase _)
      (fun q hq => .inl (hsub q hq)), ht.regions, h.keeps hrep ht hold hsub, hgone, ht.fixPool⟩

/-- The live pointers after `k_mm_realloc(q, size)` has returned `p`. -/
def reallocLive (live : List ℕ) (q size p : ℕ) : List ℕ :=
  if p = 0 then (if size = 0 then live.erase q else live) else p :: live.erase q

/-- What a call `k_mm_realloc(q, size)` of a live pointer that returned `p` has done. -/
structure Realloced (cfg : MmConfig) (s : MmHead) (A : HeapBlks) (live : List ℕ) (q size p : ℕ)
    (s' : MmHead) (A' : HeapBlks) (fl' : ℕ → List ℕ) (av' : List ℕ) : Prop where
  inv : MmInv cfg s' A' fl' av' (reallocLive live q size p)
  regions : A'.map Prod.fst = A.map Prod.fst
  others : KeepsLive s s' (live.erase q)
  serves : p ≠ 0 → Serves s' p size
  null : p = 0 → s' = s
  contents : p ≠ 0 → size + 7 < sizeRange →
    ∀ o < min (usableSize s q) size, s'.mem (p + o) = s.mem (q + o)
  gone : p ≠ 0 → p ≠ q → GivenUp s' A' av' q
  fixPool : s'.fixPool = s.fixPool

/-- A refused call. -/
theorem MmInv.refused (h : MmInv cfg s A fl av live) {size : ℕ} (hpos : size ≠ 0) :
    Realloced cfg s A live q size 0 s A fl av := by
  refine ⟨?_, rfl, fun _ _ => ⟨rfl, fun _ _ _ => rfl⟩, by simp, fun _ => rfl, by simp, by simp, rfl⟩
  rw [reallocLive, if_pos rfl, if_neg hpos]
  exact h

/-- A resized block. SRCLINE: k_mm.c:649-718 -/
theorem MmInv.resize (h : MmInv cfg s A fl av live) (hx : x ∈ usedBlks A)
    (hne : x.addr + 16 ≠ s.fixPool) {size : ℕ} (hsize : size < sizeRange)
    (hres : Resizes cfg s A fl x (roundReq size) s')
    (hkept : size + 7 < sizeRange →
      ∀ o < min x.size size, s'.mem (x.addr + 16 + o) = s.mem (x.addr + 16 + o)) :
    ∃ A' fl', Realloced cfg s A live (x.addr + 16) size (x.addr + 16)
      { s' with mem := setWord s'.mem x.addr mmCorruptDye } A' fl' av := by
  obtain ⟨A', fl', x', hrep, ht, hxa, hlo, hhi⟩ := hres.turns (mem_usedBlks.1 hx).2
  have hx' : x' ∈ usedBlks A' := (ht.used x').2 (.inr (by simp))
  -- the last statement of the source rewrites the dye that is there
  have hdye : { s' with mem := setWord s'.mem x.addr mmCorruptDye } = s' := by
    have hd := hrep.used_dye hx'
    rw [hxa] at hd
    have : setWord s'.mem x.addr mmCorruptDye = s'.mem := by
      funext a
      by_cases ha : a = x.addr
      · rw [ha, setWord_same, hd]
      · exact setWord_ne ha
    rw [this]
  rw [hdye]
  have hold : ∀ b ∈ [x], b.addr + 16 ≠ s.fixPool := by simpa using hne
  have hsub : ∀ q ∈ live.erase (x.addr + 16), q ∈ live ∧ ∀ b ∈ [x], q ≠ b.addr + 16 := by
    intro q hq
    obtain ⟨hqp, hql⟩ := (h.live_nodup.mem_erase_iff).1 hq
    exact ⟨hql, by simpa using hqp⟩
  have hinv : MmInv cfg s' A' fl' av ((x.addr + 16) :: live.erase (x.addr + 16)) := by
    apply h.turns hrep ht hold
    · exact List.nodup_cons.2 ⟨h.live_nodup.not_mem_erase, h.live_nodup.erase _⟩
    · intro q hq
      rcases List.mem_cons.1 hq with rfl | hq
      · exact .inr ⟨x', by simp, by rw [hxa], hne⟩
      · exact .inl (hsub q hq)
  have hc : krhinoMblkCheck s' (x'.addr + 16) = false :=
    hinv.check_blk hx' (by rw [ht.fixPool, hxa]; exact hne)
  have hserve := hrep.serves hx' hc hsize hlo hhi
  rw [hxa] at hserve
  refine ⟨A', fl', ?_, ht.regions, h.keeps hrep ht hold hsub, fun _ => hserve, ?_, ?_, ?_, ht.fixPool⟩
  · rw [reallocLive, if_neg (by omega)]
    exact hinv
  · intro hx0
    cases hx0
  · intro _
    rw [h.rep.usable_blk hx (h.check_blk hx hne)]
    exact hkept
  · intro _ hself
    exact absurd rfl hself

/-- A copy changes words of its target only. -/
theorem copyWords_ne {m : Words} {dst src len a : ℕ} (h : copyWords m dst src len a ≠ m a) :
    dst ≤ a ∧ a < dst + len := by
  by_contra hc
  exact h (if_neg hc)

/-- `memcpy` into a new live block. -/
theorem MmInv.copyTo (h : MmInv cfg s A fl av (p :: live)) (src : ℕ) {len : ℕ}
    (hlen : len ≤ usableSize s p) :
    MmInv cfg { s with mem := copyWords s.mem p src len } A fl av (p :: live) ∧
      KeepsLive s { s with mem := copyWords s.mem p src len } live ∧
      usableSize { s with mem := copyWords s.mem p src len } p = usableSize s p := by
  have hin : ∀ a, copyWords s.mem p src len a ≠ s.mem a →
      ∃ q ∈ p :: live, q ≤ a ∧ a < q + usableSize s q := by
    intro a ha
    obtain ⟨hlo, hhi⟩ := copyWords_ne ha
    exact ⟨p, by simp, hlo, by omega⟩
  have hinv := h.writeLive hin
  have husable : ∀ q ∈ p :: live,
      usableSize { s with mem := copyWords s.mem p src len } q = usableSize s q := by
    intro q hq
    cases hc : krhinoMblkCheck s q with
    | true =>
      rw [usable_slot hc]
      have hc' : krhinoMblkCheck { s with mem := copyWords s.mem p src len } q = true := hc
      exact usable_slot hc'
    | false =>
      obtain ⟨x, hx, rfl, -⟩ := h.live_blk q hq hc
      rw [h.rep.usable_blk hx hc]
      exact hinv.rep.usable_blk hx hc
  refine ⟨hinv, ?_, husable p (by simp)⟩
  intro q hq
  have hne : q ≠ p := by
    rintro rfl
    exact (List.nodup_cons.1 h.live_nodup).1 hq
  refine ⟨husable q (List.mem_cons_of_mem _ hq), ?_⟩
  intro a hlo hhi
  by_contra hc
  obtain ⟨hlo', hhi'⟩ := copyWords_ne hc
  rcases h.live_disjoint (List.mem_cons_of_mem _ hq) (List.mem_cons_self ..) hne with hd | hd
  · omega
  · omega

/-- `k_mm_realloc` moves an allocation: a new block, a copy, the old one given back. -/
theorem MmInv.move (h : MmInv cfg s A fl av live) (free : MmHead → Option MmHead) (hq : q ∈ live)
    {size : ℕ} (hsize : size < sizeRange)
    (hfree : ∀ t A₁ fl₁ live₁, MmInv cfg t A₁ fl₁ av live₁ → q ∈ live₁ →
      krhinoMblkCheck t q = krhinoMblkCheck s q → ∃ t' A' fl' av',
        free t = some t' ∧ MmInv cfg t' A' fl' av' (live₁.erase q) ∧
          A'.map Prod.fst = A₁.map Prod.fst ∧ KeepsLive t t' (live₁.erase q) ∧ GivenUp t' A' av' q ∧
          t'.fixPool = t.fixPool) :
    kMmTlfAlloc cfg s size = some (0, s) ∨
      ∃ p s₁, kMmTlfAlloc cfg s size = some (p, s₁) ∧ p ≠ 0 ∧ usableSize s₁ q = usableSize s q ∧
        krhinoMblkCheck s₁ q = krhinoMblkCheck s q ∧ ∀ len ≤ roundReq size,
        ∃ s' A' fl' av', free { s₁ with mem := copyWords s₁.mem p q len } = some s' ∧
          MmInv cfg s' A' fl' av' (p :: live.erase q) ∧ A'.map Prod.fst = A.map Prod.fst ∧
          KeepsLive s s' (live.erase q) ∧ Serves s' p size ∧
          (∀ o < min (usableSize s q) len, s'.mem (p + o) = s.mem (q + o)) ∧
          GivenUp s' A' av' q ∧ s'.fixPool = s.fixPool := by
  rcases h.tlfAlloc hsize with h0 | ⟨s₁, A₁, fl₁, x, heq, hinv, ht, hround, hserve⟩
  · exact .inl h0
  right
  have hkeep₁ : KeepsLive s s₁ live :=
    h.keeps hinv.rep ht (by simp) (fun q hq => ⟨hq, by simp⟩)
  refine ⟨x.addr + 16, s₁, heq, by omega, (hkeep₁ q hq).1, ht.check q, ?_⟩
  intro len hlen
  have hfresh := (List.nodup_cons.1 hinv.live_nodup).1
  have hxA : x ∈ usedBlks A₁ := (ht.used x).2 (.inr (by simp))
  have hcx := hinv.check_blk hxA (by rw [ht.fixPool]; exact (h.fresh hinv.rep ht).2)
  have hroom : len ≤ usableSize s₁ (x.addr + 16) := by
    rw [hinv.rep.usable_blk hxA hcx]
    omega
  obtain ⟨hinv₂, hkeep₂, husable₂⟩ := hinv.copyTo q hroom
  obtain ⟨s', A', fl', av', hfreeq, hinv', hreg, hkeep₃, hgone, hfix⟩ :=
    hfree _ A₁ fl₁ _ hinv₂ (List.mem_cons_of_mem _ hq) (ht.check q)
  have hne : x.addr + 16 ≠ q := by
    rintro rfl
    exact hfresh hq
  have herase : ((x.addr + 16) :: live).erase q = (x.addr + 16) :: live.erase q := by
    rw [List.erase_cons_tail]
    simpa using hne
  rw [herase] at hinv' hkeep₃
  have hsub : ∀ z ∈ live.erase q, z ∈ live := fun z hz => List.mem_of_mem_erase hz
  obtain ⟨hu, hcontents⟩ := hkeep₃ (x.addr + 16) (by simp)
  rw [husable₂] at hu hcontents
  refine ⟨s', A', fl', av', hfreeq, hinv', ?_, ?_, ?_, ?_, hgone, hfix.trans ht.fixPool⟩
  · rw [hreg, ht.regions]
  · refine KeepsLive.trans (fun z hz => hkeep₁ z (hsub z hz)) ?_
    exact KeepsLive.trans (fun z hz => hkeep₂ z (hsub z hz))
      (fun z hz => hkeep₃ z (List.mem_cons_of_mem _ hz))
  · exact ⟨fun hlt => by rw [hu]; exact hserve.enough hlt,
      fun hle => by rw [hu]; exact hserve.short hle⟩
  · intro o ho
    rw [hcontents _ (by omega) (by omega), ← (hkeep₁ q hq).2 (q + o) (by omega) (by omega)]
    show copyWords s₁.mem (x.addr + 16) q len (x.addr + 16 + o) = _
    rw [copyWords, if_pos (by omega), show x.addr + 16 + o - (x.addr + 16) = o by omega]

/-- The invariant holds of fewer live pointers. -/
theorem MmInv.sub (h : MmInv cfg s A fl av live) (hnd : live'.Nodup)
    (hsub : ∀ p ∈ live', p ∈ live) : MmInv cfg s A fl av live' :=
  ⟨h.rep, h.pool, hnd, fun p hp => h.live_blk p (hsub p hp), fun p hp => h.live_slot p (hsub p hp)⟩

/-- A request larger than a slot goes past the pool. -/
theorem kMmAlloc_large {size : ℕ} (h : 32 < size) : kMmAlloc cfg s size = kMmTlfAlloc cfg s size := by
  unfold kMmAlloc
  rw [if_neg (by omega), if_neg (by simp only [mmBlkSize]; omega)]

/-- `k_mm_realloc` of a slot of the pool. SRCLINE: k_mm.c:622-643 -/
theorem MmInv.reallocSlot (h : MmInv cfg s A fl av live) (hq : q ∈ live) {size : ℕ}
    (hsize : size < sizeRange) (hpos : size ≠ 0) (hc : krhinoMblkCheck s q = true) :
    ∃ p s' A' fl' av', kMmRealloc cfg s q size = some (p, s') ∧
      Realloced cfg s A live q size p s' A' fl' av' := by
  have hq0 := h.live_pos hq
  have hr := sizeRange_eq
  have hslot := usable_slot hc
  unfold kMmRealloc
  rw [if_neg hq0, if_neg hpos, if_pos hc]
  by_cases hle : size ≤ mmBlkSize
  · rw [if_pos hle]
    have hle' : size ≤ 32 := hle
    refine ⟨q, s, A, fl, av, rfl, ?_, rfl, fun _ _ => ⟨rfl, fun _ _ _ => rfl⟩, fun _ => ?_,
      fun _ => rfl, fun _ _ _ _ => rfl, fun _ hself => absurd rfl hself, rfl⟩
    · rw [reallocLive, if_neg hq0]
      apply h.sub
      · exact List.nodup_cons.2 ⟨h.live_nodup.not_mem_erase, h.live_nodup.erase _⟩
      · intro z hz
        rcases List.mem_cons.1 hz with rfl | hz
        · exact hq
        · exact List.mem_of_mem_erase hz
    · exact ⟨fun _ => by omega, fun _ => by omega⟩
  · rw [if_neg hle]
    have hlt : 32 < size := by
      simp only [mmBlkSize] at hle
      omega
    rw [kMmAlloc_large hlt]
    have hmove := h.move (fun t => some (kMmSmallblkFree t q)) hq hsize (by
      intro t A₁ fl₁ live₁ ht hql hcq
      obtain ⟨hinv, hkeep⟩ := ht.smallblkFree hql (hcq.trans hc)
      refine ⟨_, A₁, fl₁, _, rfl, hinv, rfl, hkeep, ⟨fun _ => by simp, fun hc' => ?_⟩, rfl⟩
      have hc'' : krhinoMblkCheck t q = false := hc'
      rw [hcq, hc] at hc''
      cases hc'')
    rcases hmove with h0 | ⟨p, s₁, heq, hp0, -, -, hrest⟩
    · rw [h0]
      exact ⟨0, s, A, fl, av, rfl, h.refused hpos⟩
    · obtain ⟨-, hmin, -⟩ := roundReq_spec hsize
      obtain ⟨s', A', fl', av', hfree, hinv, hreg, hkeep, hserve, hcontents, hgone, hfix⟩ :=
        hrest mmBlkSize hmin
      rw [heq]
      simp only [if_neg hp0]
      refine ⟨p, s', A', fl', av', ?_, ?_, hreg, hkeep, fun _ => hserve, fun hz => absurd hz hp0, ?_,
        fun _ _ => hgone, hfix⟩
      · rw [Option.some.inj hfree]
      · rw [reallocLive, if_neg hp0]
        exact hinv
      · intro _ _ o ho
        apply hcontents
        simp only [mmBlkSize]
        omega

/-- A size that is rounded stays when it is rounded again. -/
theorem roundReq_round {size : ℕ} (hsize : size < sizeRange) :
    roundReq (roundReq size) = roundReq size := by
  have hr := sizeRange_eq
  obtain ⟨hal, hmin, hlt, -, -⟩ := roundReq_spec hsize
  generalize roundReq size = k at *
  have : mmAlignUp k = k := by
    unfold mmAlignUp
    rw [addSize_eq (by omega)]
    omega
  unfold roundReq mmMinSize
  rw [this, if_neg (by omega)]

/-- `k_mm_realloc` of a block. SRCLINE: k_mm.c:645-737 -/
theorem MmInv.reallocBlk (h : MmInv cfg s A fl av live) (hq : q ∈ live) {size : ℕ}
    (hsize : size < sizeRange) (hpos : size ≠ 0) (hc : krhinoMblkCheck s q = false) :
    ∃ p s' A' fl' av', kMmRealloc cfg s q size = some (p, s') ∧
      Realloced cfg s A live q size p s' A' fl' av' := by
  have hq0 := h.live_pos hq
  have hr := sizeRange_eq
  obtain ⟨x, hx, rfl, hne⟩ := h.live_blk q hq hc
  have hxf := (mem_usedBlks.1 hx).2
  obtain ⟨A₁, A₂, r, L, R, S, n, har⟩ := h.rep.around (mem_usedBlks.1 hx).1
  obtain ⟨hxl, hnl, -⟩ := har.laid
  have hnb := har.n_bounds
  have hna : n.addr = x.addr + 16 + x.size := hnl.addr
  have hxn : x.next = x.addr + 16 + x.size := rfl
  have hnext := hxl.nextBlk (by omega)
  have hnw : s.mem (n.addr + 12) = blkWord x.free n := hnl.word
  have hmin := h.rep.min_size (mem_usedBlks.1 hx).1
  obtain ⟨hral, hrmin, hrlt, hfit, hwrap⟩ := roundReq_spec hsize
  have hround : (if mmAlignUp size < mmMinSize then mmMinSize else mmAlignUp size) = roundReq size :=
    rfl
  have hresult : ∀ s₁, Resizes cfg s A fl x (roundReq size) s₁ →
      (size + 7 < sizeRange →
        ∀ o < min x.size size, s₁.mem (x.addr + 16 + o) = s.mem (x.addr + 16 + o)) →
      ∃ p s' A' fl' av', some (x.addr + 16, { s₁ with mem := setWord s₁.mem x.addr mmCorruptDye }) =
          some (p, s') ∧ Realloced cfg s A live (x.addr + 16) size p s' A' fl' av' := by
    intro s₁ hres hkept
    obtain ⟨A', fl', hdone⟩ := h.resize hx hne hsize hres hkept
    exact ⟨_, _, A', fl', av, rfl, hdone⟩
  unfold kMmRealloc
  rw [if_neg hq0, if_neg hpos, if_neg (by simp [hc])]
  simp only [mmGetThisBlk_payload, hxl.bufSize, hnext, hround]
  by_cases hle : roundReq size ≤ x.size
  · rw [if_pos hle]
    obtain ⟨hres, hkept⟩ := har.shrink hxf size hral hrmin hle
    refine hresult _ hres fun hnow o ho => hkept _ (by omega) ?_
    have := hfit hnow
    omega
  rw [if_neg hle]
  have hnsize : mmGetBlkSize s.mem x.next = n.size + 16 := by
    unfold mmGetBlkSize mmGetBufSize
    rw [show x.next = n.addr from hna.symm, hnw, blkWord_bufSize hnl.aligned]
    rfl
  have hnfree : mmIsFree (s.mem (x.next + 12)) = n.free := by
    rw [show x.next = n.addr from hna.symm, hnw, mmIsFree_blkWord hnl.aligned]
  rw [hnsize, hnfree]
  by_cases hen : n.free = true ∧ roundReq size ≤ addSize x.size (n.size + 16)
  · rw [if_pos hen]
    have hnbd := h.rep.blk_bounds har.n_mem
    have hnn : n.next = n.addr + 16 + n.size := rfl
    have hsum := hen.2
    rw [addSize_eq (by omega)] at hsum
    obtain ⟨hres, hkept⟩ := har.enlarge hxf hen.1 size hral hrmin hsum
    exact hresult _ hres fun _ o ho => hkept _ (by omega) (by omega) (by omega)
  · rw [if_neg hen, kMmAlloc_large (by omega)]
    rcases h.move (fun t => kMmFree cfg t (x.addr + 16)) hq hrlt
        (fun t A₁ fl₁ live₁ ht hql _ => ht.free hql) with h0 | ⟨p, s₁, heq, hp0, hu₁, hc₁, hrest⟩
    · rw [h0]
      exact ⟨0, s, A, fl, av, rfl, h.refused hpos⟩
    · rw [heq]
      simp only [if_neg hp0]
      have hbuf : mmGetBufSize s₁.mem x.addr = x.size := by
        rw [h.rep.usable_blk hx hc] at hu₁
        rwa [usableSize, hc₁, hc, if_neg (by simp), mmGetThisBlk_payload] at hu₁
      rw [hbuf, if_neg (by omega)]
      obtain ⟨s', A', fl', av', hfree, hinv, hreg, hkeep, hserve, hcontents, hgone, hfix⟩ :=
        hrest x.size (by rw [roundReq_round hsize]; omega)
      rw [hfree]
      refine ⟨p, s', A', fl', av', rfl, ?_, hreg, hkeep, ?_, fun hz => absurd hz hp0, ?_,
        fun _ _ => hgone, hfix⟩
      · rw [reallocLive, if_neg hp0]
        exact hinv
      · intro _
        -- the rounded size is above 32 here, so the request did not wrap
        have hnow : size + 7 < sizeRange := by
          by_contra hc
          have := hwrap (by omega)
          omega
        exact ⟨fun _ => (hfit hnow).trans (hserve.enough (by omega)), fun hc => by omega⟩
      · intro _ hnow o ho
        have := hfit hnow
        apply hcontents
        rw [h.rep.usable_blk hx hc] at ho ⊢
        omega

/-- **`k_mm_realloc` of a live pointer** to a size that is not zero. -/
theorem MmInv.realloced (h : MmInv cfg s A fl av live) (hq : q ∈ live) {size : ℕ}
    (hsize : size < sizeRange) (hpos : size ≠ 0) :
    ∃ p s' A' fl' av', kMmRealloc cfg s q size = some (p, s') ∧
      Realloced cfg s A live q size p s' A' fl' av' := by
  cases hc : krhinoMblkCheck s q with
  | true => exact h.reallocSlot hq hsize hpos hc
  | false => exact h.reallocBlk hq hsize hpos hc

/-- **`k_mm_realloc` of NULL or a live pointer returns.** SRCLINE: k_mm.c:597-738 -/
theorem MmInv.realloc (h : MmInv cfg s A fl av live) (hq : q = 0 ∨ q ∈ live) {size : ℕ}
    (hsize : size < sizeRange) :
    ∃ p s' A' fl' av', kMmRealloc cfg s q size = some (p, s') ∧
      MmInv cfg s' A' fl' av' (reallocLive live q size p) ∧
      A'.map Prod.fst = A.map Prod.fst ∧ KeepsLive s s' (live.erase q) ∧
      (p ≠ 0 → Serves s' p size) ∧ s'.fixPool = s.fixPool := by
  have h0 : (0 : ℕ) ∉ live := fun hc => h.live_pos hc rfl
  rcases hq with rfl | hq
  · unfold kMmRealloc
    rw [if_pos rfl]
    by_cases hpos : 0 < size
    · rw [if_pos hpos]
      obtain ⟨p, s', A', fl', av', heq, hinv, hreg, hkeep, hserve, hfix⟩ := h.alloc hsize
      refine ⟨p, s', A', fl', av', heq, ?_, hreg, ?_, hserve, hfix⟩
      · rw [reallocLive, if_neg (by omega : ¬ size = 0), List.erase_of_not_mem h0]
        exact hinv
      · rw [List.erase_of_not_mem h0]
        exact hkeep
    · rw [if_neg hpos]
      refine ⟨0, s, A, fl, av, rfl, ?_, rfl, fun _ _ => ⟨rfl, fun _ _ _ => rfl⟩, by simp, rfl⟩
      rw [reallocLive, if_pos rfl, if_pos (by omega), List.erase_of_not_mem h0]
      exact h
  · by_cases hpos : size = 0
    · obtain ⟨s', A', fl', av', heq, hinv, hreg, hkeep, -, hfix⟩ := h.free hq
      refine ⟨0, s', A', fl', av', ?_, ?_, hreg, hkeep, by simp, hfix⟩
      · unfold kMmRealloc
        rw [if_neg (h.live_pos hq), if_pos hpos, heq]
        rfl
      · rw [reallocLive, if_pos rfl, if_pos hpos]
        exact hinv
    · obtain ⟨p, s', A', fl', av', heq, hdone⟩ := h.realloced hq hsize hpos
      exact ⟨p, s', A', fl', av', heq, hdone.inv, hdone.regions, hdone.others, hdone.serves,
        hdone.fixPool⟩

end Inv

end GenieSdk.Analysis
