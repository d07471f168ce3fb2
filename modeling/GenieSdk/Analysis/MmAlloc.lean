import GenieSdk.Analysis.MmOps

/-!
# The heap seen from its allocated blocks

A client of the heap sees allocated blocks and what is stored in them. `Turns` states what an
operation does in these terms: some allocated blocks are given up, some are handed out, and the
payload of every other allocated block is left alone. The specifications of `k_mm_alloc`,
`k_mm_free` and the two in-place forms of `k_mm_realloc` follow from the run replacements.
-/

set_option autoImplicit false

namespace GenieSdk.Analysis

open GenieSdk.Lib GenieSdk.Model

/-- The allocated blocks between the fixed ones. -/
def usedBlks (A : HeapBlks) : List Blk := (userBlks A).filter (fun b => !b.free)

/-- The blocks in use. -/
theorem mem_usedBlks {A : HeapBlks} {b : Blk} :
    b ∈ usedBlks A ↔ b ∈ userBlks A ∧ b.free = false := by
  simp [usedBlks]

/-- From `s` with blocks `A` to `s'` with blocks `A'` the allocated blocks `old` are given up and
the allocated blocks `new` are handed out. -/
structure Turns (s : MmHead) (A : HeapBlks) (s' : MmHead) (A' : HeapBlks) (old new : List Blk) :
    Prop where
  regions : A'.map Prod.fst = A.map Prod.fst
  used : ∀ b, b ∈ usedBlks A' ↔ (b ∈ usedBlks A ∧ b ∉ old) ∨ b ∈ new
  fresh : ∀ b ∈ new, b ∈ usedBlks A → b ∈ old
  payload : ∀ b ∈ usedBlks A, b ∉ old → ∀ a, b.addr + 16 ≤ a → a < b.next → s'.mem a = s.mem a
  fixPool : s'.fixPool = s.fixPool
  pool : s'.pool = s.pool

/-- The step depends on which blocks go and which come. -/
theorem Turns.congr {s s' : MmHead} {A A' : HeapBlks} {old old' new new' : List Blk}
    (h : Turns s A s' A' old new) (hold : ∀ b, b ∈ old ↔ b ∈ old') (hnew : ∀ b, b ∈ new ↔ b ∈ new') :
    Turns s A s' A' old' new' := by
  refine ⟨h.regions, ?_, ?_, ?_, h.fixPool, h.pool⟩
  · intro b
    rw [h.used, hold, hnew]
  · intro b hb hbA
    rw [← hold]
    exact h.fresh b ((hnew b).2 hb) hbA
  · intro b hb hnot
    exact h.payload b hb (by rwa [hold])

/-- The only allocated block of a run. -/
theorem mem_usedRun {mid : List Blk} {x : Blk} (hxm : x ∈ mid) (hxf : x.free = false)
    (hmid : ∀ z ∈ mid, z = x ∨ z.free = true) (b : Blk) :
    b ∈ mid.filter (fun b => !b.free) ↔ b ∈ [x] := by
  simp only [List.mem_filter, Bool.not_eq_true', List.mem_singleton]
  constructor
  · rintro ⟨hb, hbf⟩
    rcases hmid b hb with rfl | hc
    · rfl
    · rw [hbf] at hc
      cases hc
  · rintro rfl
    exact ⟨hxm, hxf⟩

section Specs

variable {cfg : MmConfig} {s s' : MmHead} {A A' : HeapBlks} {fl fl' : ℕ → List ℕ}
  {mid mid' : List Blk} {x : Blk}

/-- A user block with its neighbourhood. -/
theorem HeapRep.around (h : HeapRep cfg s A fl) (hx : x ∈ userBlks A) :
    ∃ A₁ A₂ r L R S n, Around cfg s A A₁ A₂ fl r L [x] R S n := by
  obtain ⟨⟨r, bs⟩, hp, hxp⟩ := mem_userBlks.1 hx
  obtain ⟨A₁, A₂, rfl⟩ := List.append_of_mem hp
  obtain ⟨L, R, rfl⟩ := List.append_of_mem hxp
  cases hR : R ++ [r.last] with
  | nil => simp at hR
  | cons n S => exact ⟨A₁, A₂, r, L, R, S, n, h, by simp, hR⟩

/-- A block is not both in the run and outside of it. -/
theorem Around.outside_not_mem {A₁ A₂ : HeapBlks} {r : Region} {L R S : List Blk} {n : Blk}
    (har : Around cfg s A A₁ A₂ fl r L mid R S n) {b : Blk} (hb : Outside A₁ A₂ L R b) : b ∉ mid := by
  intro hbm
  have hnb := har.n_bounds
  have hbb := (laid_append.1 har.laid).1.bounds.2 b hbm
  have hnext : b.next = b.addr + 16 + b.size := rfl
  rcases har.outside_addr hb with hle | hle
  · omega
  · omega

/-- Replacing a run, seen from the allocated blocks. -/
theorem Replaces.turns (h : Replaces cfg s A fl mid mid' s') :
    ∃ A' fl', HeapRep cfg s' A' fl' ∧
      Turns s A s' A' (mid.filter (fun b => !b.free)) (mid'.filter (fun b => !b.free)) := by
  obtain ⟨A₁, A₂, r, L, R, S, n, fl', har, hrep, hframe, hfix, hpool⟩ := h
  have hnb := har.n_bounds
  have har' : Around cfg s' _ A₁ A₂ fl' r L mid' R S n := ⟨hrep, rfl, har.rest⟩
  refine ⟨_, fl', hrep, ?_, ?_, ?_, ?_, hfix, hpool⟩
  · rw [har.blks]
    simp
  · intro b
    rw [mem_usedBlks, mem_usedBlks, har.blks, mem_userBlks_run, mem_userBlks_run]
    simp only [List.mem_filter, Bool.not_eq_true', not_and]
    constructor
    · rintro ⟨hb | hb, hbf⟩
      · exact .inr ⟨hb, hbf⟩
      · exact .inl ⟨⟨.inr hb, hbf⟩, fun hbm => absurd hbm (har.outside_not_mem hb)⟩
    · rintro (⟨⟨hb | hb, hbf⟩, hnot⟩ | ⟨hb, hbf⟩)
      · exact absurd hbf (hnot hb)
      · exact ⟨.inr hb, hbf⟩
      · exact ⟨.inl hb, hbf⟩
  · intro b hb hbA
    obtain ⟨hbm', hbf⟩ := List.mem_filter.1 hb
    have hbu := (mem_usedBlks.1 hbA).1
    rw [har.blks] at hbu
    rcases mem_userBlks_run.1 hbu with hbm | hbo
    · exact List.mem_filter.2 ⟨hbm, hbf⟩
    · exact absurd hbm' (har'.outside_not_mem hbo)
  · intro b hb hnot a hlo hhi
    obtain ⟨hbu, hbf⟩ := mem_usedBlks.1 hb
    have hbm : b ∉ mid := fun hc => hnot (List.mem_filter.2 ⟨hc, by simp [hbf]⟩)
    have hbout : Outside A₁ A₂ L R b := by
      rw [har.blks] at hbu
      exact (mem_userBlks_run.1 hbu).resolve_left hbm
    apply hframe
    · exact har.rep.noLink_used (mem_allBlks_of_mem_userBlks hbu) hbf (by omega) hhi
    · rcases har.outside_addr hbout with hle | hle
      · omega
      · omega

/-- A filed block is a free block whose header gives its size. -/
theorem HeapRep.filed_size (h : HeapRep cfg s A fl) {l y : ℕ} (hy : y ∈ fl l) :
    ∃ b ∈ userBlks A, b.addr = y ∧ b.free = true ∧ sizeToLevel cfg b.size = some l ∧
      mmGetBufSize s.mem y = b.size := by
  obtain ⟨b, hb, rfl, hbf, hlev⟩ := (h.filed l y).1 hy
  obtain ⟨A₁, A₂, r, L, R, S, n, har⟩ := h.around hb
  exact ⟨b, hb, rfl, hbf, hlev, har.laid.1.bufSize⟩

/-- The size `k_mm_alloc` and `k_mm_realloc` work with. -/
def roundReq (req : ℕ) : ℕ := if mmAlignUp req < mmMinSize then mmMinSize else mmAlignUp req

/-- A request is rounded up to a multiple of eight, 32 at least, unless it wraps. -/
theorem roundReq_spec {req : ℕ} (hreq : req < sizeRange) :
    roundReq req % 8 = 0 ∧ 32 ≤ roundReq req ∧ roundReq req < sizeRange ∧
      (req + 7 < sizeRange → req ≤ roundReq req) ∧
      (sizeRange ≤ req + 7 → roundReq req = 32) := by
  have hr := sizeRange_eq
  unfold roundReq mmAlignUp mmMinSize addSize
  by_cases hw : req + 7 < sizeRange
  · rw [if_pos hw]
    split
    · omega
    · omega
  · rw [if_neg hw]
    have h0 : (req + 7 - sizeRange) / 8 * 8 = 0 := by omega
    rw [h0]
    simp
    omega

/-- **the search of the free lists returns** a free block of at least the rounded size,
or NULL if no filed block is that large. -/
theorem HeapRep.search (h : HeapRep cfg s A fl) {req level : ℕ} (hreq : req < sizeRange)
    (hlev : sizeToLevel cfg (roundReq req) = some level) :
    ∃ g, findFreeBlk cfg s level (roundReq req) = some g ∧
      ((g = 0 ∧ ∀ b ∈ userBlks A, b.free = true → b.size < cfg.maxSize → b.size < roundReq req) ∨
        ∃ b ∈ userBlks A, b.addr = g ∧ b.free = true ∧ b.size < cfg.maxSize ∧
          roundReq req ≤ b.size) := by
  obtain ⟨-, hmin, hlt, -, -⟩ := roundReq_spec hreq
  have hr := sizeRange_eq
  have hsize32 : ∀ b ∈ userBlks A, b.addr < sizeRange ∧ 0 < b.size ∧ b.size < 2 ^ 32 := by
    intro b hbu
    have hbb := h.blk_bounds (mem_allBlks_of_mem_userBlks hbu)
    have hbm := h.min_size hbu
    have hnext : b.next = b.addr + 16 + b.size := rfl
    exact ⟨by omega, by omega, by omega⟩
  have hb : ∀ l, ∀ y ∈ fl l, y < sizeRange ∧ sizeToLevel cfg (mmGetBufSize s.mem y) = some l ∧
      0 < mmGetBufSize s.mem y ∧ mmGetBufSize s.mem y < 2 ^ 32 := by
    intro l y hy
    obtain ⟨b, hbu, rfl, -, hblev, hsize⟩ := h.filed_size hy
    obtain ⟨h1, h2, h3⟩ := hsize32 b hbu
    rw [hsize]
    exact ⟨h1, hblev, h2, h3⟩
  obtain ⟨g, hg, hcase⟩ := h.lists.findFreeBlk hlev (by omega)
    (fun l y hy => (hb l y hy).1) (fun l y hy => (hb l y hy).2.1) (fun l y hy => (hb l y hy).2.2)
  refine ⟨g, hg, ?_⟩
  rcases hcase with ⟨hg0, hnone⟩ | ⟨k, hk, hsz⟩
  · refine .inl ⟨hg0, ?_⟩
    intro b hbu hbf hmax
    obtain ⟨l, hblev⟩ := sizeToLevel_isSome hmax
    obtain ⟨-, hb0, hb32⟩ := hsize32 b hbu
    have hfiled : b.addr ∈ fl l := (h.filed l b.addr).2 ⟨b, hbu, rfl, hbf, hblev⟩
    -- a block of a lower level is smaller anyway
    rcases Nat.lt_or_ge l level with hll | hll
    · exact lt_of_sizeToLevel_lt hblev hlev hll (by omega) hb32 (by omega)
    · have := hnone l hll b.addr hfiled
      obtain ⟨A₁, A₂, r, L, R, S, n, har⟩ := h.around hbu
      rwa [har.laid.1.bufSize] at this
  · obtain ⟨b, hbu, hba, hbf, hblev, hsize⟩ := h.filed_size hk
    refine .inr ⟨b, hbu, hba, hbf, ?_, by rwa [← hsize]⟩
    by_contra hmax
    rw [sizeToLevel_eq_none (not_lt.1 hmax) (hsize32 b hbu).2.2] at hblev
    cases hblev

/-- **`k_mm_alloc` past the pool returns**: NULL with nothing changed, or the payload of a block
of at least the rounded size, less than a block's worth larger.
SRCLINE: k_mm.c:430-515 -/
theorem HeapRep.tlfAlloc (h : HeapRep cfg s A fl) {req : ℕ} (hreq : req < sizeRange) :
    kMmTlfAlloc cfg s req = some (0, s) ∨
      ∃ s' A' fl' x, kMmTlfAlloc cfg s req = some (x.addr + 16, s') ∧ HeapRep cfg s' A' fl' ∧
        Turns s A s' A' [] [x] ∧ roundReq req ≤ x.size ∧ x.size < roundReq req + 48 := by
  obtain ⟨hal, hmin, hlt, -, -⟩ := roundReq_spec hreq
  have hr := sizeRange_eq
  unfold kMmTlfAlloc
  simp only
  rw [show (if mmAlignUp req < mmMinSize then mmMinSize else mmAlignUp req) = roundReq req from rfl]
  cases hlev : sizeToLevel cfg (roundReq req) with
  | none => exact .inl rfl
  | some level =>
    obtain ⟨g, hg, hcase⟩ := h.search hreq hlev
    simp only [hg]
    rcases hcase with ⟨rfl, -⟩ | ⟨b, hbu, rfl, hbf, -, hsz⟩
    · exact .inl rfl
    · right
      have hbb := h.blk_bounds (mem_allBlks_of_mem_userBlks hbu)
      rw [if_neg (by omega)]
      obtain ⟨A₁, A₂, r, L, R, S, n, har⟩ := h.around hbu
      have hba := har.laid.1.addr
      by_cases hroom : roundReq req + 48 ≤ b.size
      · obtain ⟨fl', hp, hrep, hframe, hfix, hpool⟩ :=
          har.takeSplit hbf req hal hmin hroom
        obtain ⟨A', fl'', hrep', hturn⟩ := Replaces.turns ⟨A₁, A₂, r, L, R, S, n, fl', har, hrep,
          fun a ha hout => hframe a ha (by omega), hfix, hpool⟩
        refine ⟨_, A', fl'', ⟨b.addr, roundReq req, false⟩, ?_, hrep', ?_, le_refl _, ?_⟩
        · exact congrArg some (Prod.ext hp rfl)
        · simpa [hbf] using hturn
        · show roundReq req < roundReq req + 48
          omega
      · obtain ⟨fl', hp, hrep, hframe, hfix, hpool⟩ := har.takeWhole hbf req hroom
        obtain ⟨A', fl'', hrep', hturn⟩ := Replaces.turns ⟨A₁, A₂, r, L, R, S, n, fl', har, hrep,
          fun a ha hout => hframe a ha (by omega), hfix, hpool⟩
        refine ⟨_, A', fl'', ⟨b.addr, b.size, false⟩, ?_, hrep', ?_, hsz, ?_⟩
        · exact congrArg some (Prod.ext hp rfl)
        · simpa [hbf] using hturn
        · show b.size < roundReq req + 48
          omega

/-- **`k_mm_free` of an allocated block returns** and gives up that block.
SRCLINE: k_mm.c:538-595 -/
theorem HeapRep.free (h : HeapRep cfg s A fl) (hx : x ∈ usedBlks A)
    (hcheck : krhinoMblkCheck s (x.addr + 16) = false) :
    ∃ s' A' fl', kMmFree cfg s (x.addr + 16) = some s' ∧ HeapRep cfg s' A' fl' ∧
      Turns s A s' A' [x] [] := by
  obtain ⟨hxu, hxf⟩ := mem_usedBlks.1 hx
  obtain ⟨A₁, A₂, r, L, R, S, n, har⟩ := h.around hxu
  obtain ⟨s', fl', L', mid, R', S', n', y, heq, har', hxm, hmid, hyf, hrep, hframe, hfix, hpool⟩ :=
    har.free hxf hcheck
  obtain ⟨A', fl'', hrep', hturn⟩ :=
    Replaces.turns ⟨A₁, A₂, r, L', R', S', n', fl', har', hrep, hframe, hfix, hpool⟩
  refine ⟨s', A', fl'', heq, hrep', ?_⟩
  refine hturn.congr (mem_usedRun hxm hxf hmid) ?_
  simp [hyf]

/-- A block that is resized stays where it is and is at most 48 bytes longer than asked for. -/
theorem Resizes.turns {newSize : ℕ} (h : Resizes cfg s A fl x newSize s') (hxf : x.free = false) :
    ∃ A' fl' x', HeapRep cfg s' A' fl' ∧ Turns s A s' A' [x] [x'] ∧ x'.addr = x.addr ∧
      newSize ≤ x'.size ∧ x'.size < newSize + 48 := by
  obtain ⟨mid, x', rest, hxm, hmid, hrepl, hxa', hxf', hsize, hrest⟩ := h
  obtain ⟨A', fl', hrep, hturn⟩ := hrepl.turns
  refine ⟨A', fl', x', hrep, hturn.congr (mem_usedRun hxm hxf hmid) ?_, hxa', hsize⟩
  refine mem_usedRun (by simp) hxf' ?_
  intro z hz
  rcases List.mem_cons.1 hz with rfl | hz
  · exact .inl rfl
  · exact .inr (hrest z hz)

/-- The dye of an allocated block. -/
theorem HeapRep.used_dye (h : HeapRep cfg s A fl) (hx : x ∈ usedBlks A) :
    s.mem x.addr = mmCorruptDye := by
  obtain ⟨hxu, hxf⟩ := mem_usedBlks.1 hx
  obtain ⟨A₁, A₂, r, L, R, S, n, har⟩ := h.around hxu
  rw [har.laid.1.dye, hxf]
  rfl

/-- The size of a user block is in its header. -/
theorem HeapRep.user_size (h : HeapRep cfg s A fl) (hx : x ∈ userBlks A) :
    mmGetBufSize s.mem x.addr = x.size := by
  obtain ⟨A₁, A₂, r, L, R, S, n, har⟩ := h.around hx
  exact har.laid.1.bufSize

/-- **Writes into allocated payload** keep the heap. -/
theorem HeapRep.writePayload (h : HeapRep cfg s A fl) {m' : Words}
    (hm : ∀ a, m' a ≠ s.mem a → ∃ x ∈ usedBlks A, x.addr + 16 ≤ a ∧ a < x.next) :
    HeapRep cfg { s with mem := m' } A fl := by
  have hout : ∀ y ∈ allBlks A, ∀ a, (y.addr ≤ a ∧ a < y.addr + 16) ∨
      (y ∉ usedBlks A ∧ y.addr ≤ a ∧ a < y.next) → m' a = s.mem a := by
    intro y hy a ha
    by_contra hne
    obtain ⟨x, hx, hlo, hhi⟩ := hm a hne
    have hxn : x.next = x.addr + 16 + x.size := rfl
    have hyn : y.next = y.addr + 16 + y.size := rfl
    by_cases hxy : x = y
    · subst hxy
      rcases ha with ha | ⟨hc, -⟩
      · omega
      · exact hc hx
    · rcases h.layout.disjoint (mem_allBlks_of_mem_userBlks (mem_usedBlks.1 hx).1) hy hxy with hd | hd
      · omega
      · omega
  refine ⟨⟨?_, h.layout.apart⟩, ?_, h.filed⟩
  · intro p hp
    have hok := h.layout.region p hp
    have hin : ∀ y ∈ p.1.blks p.2, y ∈ allBlks A := fun y hy => mem_allBlks.2 ⟨p, hp, hy⟩
    refine ⟨hok.wf, ?_, hok.min_size, ?_⟩
    · apply hok.laid.congr
      intro y hy o ho
      exact hout y (hin y hy) _ (.inl (by omega))
    · show m' (p.1.start + 16) = p.1.stop - 16
      rw [← hok.end_word]
      apply hout p.1.first (hin _ (mem_blks.2 (.inl rfl)))
      right
      have hfn : p.1.first.next = p.1.start + 16 + 8 := rfl
      have hfa : p.1.first.addr = p.1.start := rfl
      refine ⟨?_, by omega, by omega⟩
      intro hc
      have := h.min_size (mem_usedBlks.1 hc).1
      have hfs : p.1.first.size = 8 := rfl
      omega
  · refine h.lists.congr rfl rfl ?_
    intro l y hy
    obtain ⟨b, hb, rfl, hbf, -⟩ := (h.filed l y).1 hy
    have hbm := h.min_size hb
    have hbn : b.next = b.addr + 16 + b.size := rfl
    have hnot : b ∉ usedBlks A := by
      intro hc
      rw [(mem_usedBlks.1 hc).2] at hbf
      cases hbf
    have hball := mem_allBlks_of_mem_userBlks hb
    exact ⟨hout b hball _ (.inr ⟨hnot, by omega, by omega⟩),
      hout b hball _ (.inr ⟨hnot, by omega, by omega⟩)⟩

/-- Two allocated blocks at one address are one. -/
theorem HeapRep.used_disjoint (h : HeapRep cfg s A fl) {y : Blk} (hx : x ∈ usedBlks A)
    (hy : y ∈ allBlks A) (hne : x.addr ≠ y.addr) : x.next ≤ y.addr ∨ y.next ≤ x.addr :=
  h.layout.disjoint (mem_allBlks_of_mem_userBlks (mem_usedBlks.1 hx).1) hy
    (fun hc => hne (congrArg Blk.addr hc))

end Specs

end GenieSdk.Analysis
