import GenieSdk.Lib.Runs
import GenieSdk.Analysis.MmPool
import GenieSdk.Model.MblkPool

/-!
# The blocks of a fixed-block pool

The free list of the pool goes through the free blocks and `blk_avail` counts how many of its entries
are blocks: a partial block at the end is linked and not counted. **The pool is sound exactly when going
from `pool_start` in steps of `blk_size` reaches `pool_end` before the address space ends**
(`mblk_pool_sound_iff`). The size check lets a block size of zero through, with which no step leads on.
-/

set_option autoImplicit false

namespace GenieSdk.Analysis

open GenieSdk.Lib GenieSdk.Model

/-! ## What is claimed -/

/-- The first `n` entries of a free list. -/
def availEntries (m : Words) : ℕ → ℕ → List ℕ
  | 0, _ => []
  | n + 1, head => head :: availEntries m n (m head)

/-- All of a block lies in the pool. -/
def InPool (pool : MblkPool) (p : ℕ) : Prop :=
  pool.poolStart ≤ p ∧ p + pool.blkSize ≤ pool.poolEnd

structure MblkAccounts (s : MblkSys) : Prop where
  counted : s.pool.blkAvail + s.live.length = s.pool.blkWhole
  nodup : (availEntries s.mem s.pool.blkAvail s.pool.availList).Nodup
  notLive : ∀ p ∈ availEntries s.mem s.pool.blkAvail s.pool.availList, p ∉ s.live
  inside : ∀ p ∈ availEntries s.mem s.pool.blkAvail s.pool.availList, InPool s.pool p
  allocs : (mblkAlloc s.mem s.pool).isSome = true ↔ 0 < s.pool.blkAvail
  fresh : ∀ r, mblkAlloc s.mem s.pool = some r → r.1 ∉ s.live ∧ InPool s.pool r.1

/-- The initialisation ends, and the accounts hold after every run of calls. -/
def MblkSound (m : Words) (poolStart blkSize poolSize : ℕ) : Prop :=
  ∃ m' pool, mblkPoolInit m poolStart blkSize poolSize = some (some (m', pool)) ∧
    ∀ acts s, runSteps mblkStep ⟨m', pool, []⟩ acts = some s → MblkAccounts s

/-- **The condition.** A step of `blk_size` from `pool_start` reaches `pool_end` below the end of the
address space; or the first step, wrapped round, is past it already, and the pool has no block. -/
def StrideFits (poolStart blkSize poolEnd : ℕ) : Prop :=
  poolEnd < addSize poolStart blkSize ∨
    ∃ k, poolEnd ≤ poolStart + (k + 1) * blkSize ∧ poolStart + (k + 1) * blkSize < sizeRange

/-! ## The loop -/

section Loop

variable {m : Words} {blkSize poolEnd cur : ℕ} {l : List ℕ}

/-- The blocks that the loop links, the last one with it. -/
inductive Linked (blkSize poolEnd : ℕ) : ℕ → List ℕ → Prop
  | last {cur : ℕ} (h : ¬ addSize cur blkSize < poolEnd) : Linked blkSize poolEnd cur [cur]
  | next {cur : ℕ} {l : List ℕ} (h : addSize cur blkSize < poolEnd)
    (hl : Linked blkSize poolEnd (addSize cur blkSize) l) : Linked blkSize poolEnd cur (cur :: l)

/-- The list of links is determined by its start. -/
theorem Linked.unique {l' : List ℕ} (h : Linked blkSize poolEnd cur l)
    (h' : Linked blkSize poolEnd cur l') : l = l' := by
  induction h generalizing l' with
  | last hstop =>
    cases h' with
    | last _ => rfl
    | next hgo _ => exact absurd hgo hstop
  | next hgo _ ih =>
    cases h' with
    | last hstop => exact absurd hgo hstop
    | next _ hl' => rw [ih hl']

/-- From every block that is linked the same blocks follow. -/
theorem Linked.of_mem (h : Linked blkSize poolEnd cur l) {p : ℕ} (hp : p ∈ l) :
    ∃ l', Linked blkSize poolEnd p l' ∧ l' <:+ l := by
  induction h with
  | last hstop =>
    rw [List.mem_singleton.1 hp]
    exact ⟨_, .last hstop, List.suffix_rfl⟩
  | next hgo hl ih =>
    rcases List.mem_cons.1 hp with rfl | hp
    · exact ⟨_, .next hgo hl, List.suffix_rfl⟩
    · obtain ⟨l', hl', hsuf⟩ := ih hp
      exact ⟨l', hl', hsuf.trans (List.suffix_cons _ _)⟩

/-- A loop that ends links no block twice. -/
theorem Linked.nodup (h : Linked blkSize poolEnd cur l) : l.Nodup := by
  induction h with
  | last _ => simp
  | @next cur l hgo hl ih =>
    refine List.nodup_cons.2 ⟨fun hmem => ?_, ih⟩
    obtain ⟨l', hl', hsuf⟩ := hl.of_mem hmem
    have hlen := hsuf.length_le
    rw [hl'.unique (.next hgo hl), List.length_cons] at hlen
    omega

/-- And begins with it. -/
theorem Linked.head (h : Linked blkSize poolEnd cur l) : ∃ l', l = cur :: l' := by
  cases h with
  | last _ => exact ⟨[], rfl⟩
  | next _ _ => exact ⟨_, rfl⟩

/-- A wrapped sum is a size. -/
theorem addSize_lt {a b : ℕ} (ha : a < sizeRange) (hb : b < sizeRange) : addSize a b < sizeRange := by
  unfold addSize
  split <;> omega

/-- All blocks of the list are addresses. -/
theorem Linked.lt (h : Linked blkSize poolEnd cur l) (hcur : cur < sizeRange)
    (hblk : blkSize < sizeRange) : ∀ p ∈ l, p < sizeRange := by
  induction h with
  | last _ =>
    intro p hp
    rw [List.mem_singleton.1 hp]
    exact hcur
  | next _ _ ih =>
    intro p hp
    rcases List.mem_cons.1 hp with rfl | hp
    · exact hcur
    · exact ih (addSize_lt hcur hblk) p hp

/-- The loop ends if enough steps are made, and counts a last block that fits. -/
theorem Linked.loop (h : Linked blkSize poolEnd cur l) (m : Words) {fuel : ℕ}
    (hfuel : l.length ≤ fuel) (blks : ℕ) :
    ∃ m' last, mblkPoolLoop m blkSize poolEnd fuel cur blks =
        some (m', last, blks + l.length - 1 + if addSize last blkSize = poolEnd then 1 else 0) ∧
      l.getLast? = some last ∧ (∀ a ∉ l, m' a = m a) ∧
      ∀ v, SlotChain (setWord m' last v) cur l := by
  induction h generalizing m fuel blks with
  | @last cur hstop =>
    obtain ⟨fuel, rfl⟩ : ∃ n, fuel = n + 1 := ⟨fuel - 1, by simp at hfuel; omega⟩
    refine ⟨m, cur, ?_, rfl, fun _ _ => rfl, fun v => ⟨rfl, trivial⟩⟩
    rw [mblkPoolLoop, if_neg hstop]
    split <;> simp
  | @next cur l hgo hl ih =>
    obtain ⟨fuel, rfl⟩ : ∃ n, fuel = n + 1 := ⟨fuel - 1, by simp at hfuel; omega⟩
    obtain ⟨m', last, hloop, hlast, hframe, hchain⟩ :=
      ih (setWord m cur (addSize cur blkSize)) (by simpa using hfuel) (blks + 1)
    have hnot : cur ∉ l := (List.nodup_cons.1 (Linked.next hgo hl).nodup).1
    obtain ⟨l', hl'⟩ := hl.head
    refine ⟨m', last, ?_, ?_, fun a ha => ?_, fun v => ⟨rfl, ?_⟩⟩
    · rw [mblkPoolLoop, if_pos hgo, hloop, List.length_cons]
      congr 3
      have : 0 < l.length := by rw [hl']; simp
      omega
    · rw [List.getLast?_cons, hlast]
      rfl
    · rw [hframe a (fun h => ha (List.mem_cons_of_mem _ h)),
        setWord_ne (fun h => ha (by rw [h]; simp))]
    · have hne : cur ≠ last := fun h => hnot (h ▸ List.mem_of_getLast? hlast)
      rw [setWord_ne hne, hframe cur hnot, setWord_same]
      exact hchain v

/-- A loop that ends has linked some blocks. -/
theorem linked_of_loop {fuel blks : ℕ} {r : Words × ℕ × ℕ}
    (h : mblkPoolLoop m blkSize poolEnd fuel cur blks = some r) :
    ∃ l, Linked blkSize poolEnd cur l := by
  induction fuel generalizing m cur blks with
  | zero => cases h
  | succ fuel ih =>
    rw [mblkPoolLoop] at h
    split at h
    · next hgo =>
        obtain ⟨l, hl⟩ := ih h
        exact ⟨_, .next hgo hl⟩
    · next hstop => exact ⟨_, .last hstop⟩

/-- `sizeRange` steps are enough for every loop that ends at all. -/
theorem Linked.length_le (h : Linked blkSize poolEnd cur l) (hcur : cur < sizeRange)
    (hblk : blkSize < sizeRange) : l.length ≤ sizeRange := by
  have hsub : l ⊆ List.range sizeRange := fun p hp => List.mem_range.2 (h.lt hcur hblk p hp)
  have hle := (h.nodup.subperm hsub).length_le
  rwa [List.length_range] at hle

/-- The first `j` steps, when they neither wrap nor reach the end. -/
theorem linked_iff {j : ℕ} (hstep : ∀ i, 0 < i → i ≤ j →
    cur + i * blkSize < sizeRange ∧ cur + i * blkSize < poolEnd) :
    Linked blkSize poolEnd cur l ↔ ∃ l', Linked blkSize poolEnd (cur + j * blkSize) l' ∧
      l = (List.range j).map (fun i => cur + i * blkSize) ++ l' := by
  induction j generalizing l with
  | zero => simp
  | succ j ih =>
    have hj := hstep (j + 1) (by omega) le_rfl
    have hsum : cur + (j + 1) * blkSize = cur + j * blkSize + blkSize := by ring
    have hadd : addSize (cur + j * blkSize) blkSize = cur + (j + 1) * blkSize := by
      unfold addSize
      rw [hsum, if_pos (by omega)]
    rw [ih (fun i hi hij => hstep i hi (by omega))]
    constructor
    · rintro ⟨l', hl', rfl⟩
      cases hl' with
      | last hstop => exact absurd (hadd ▸ hj.2) hstop
      | next _ hl' =>
        rw [hadd] at hl'
        exact ⟨_, hl', by simp [List.range_succ]⟩
    · rintro ⟨l', hl', rfl⟩
      refine ⟨(cur + j * blkSize) :: l', .next (hadd ▸ hj.2) (hadd.symm ▸ hl'), ?_⟩
      simp [List.range_succ]

end Loop

/-! ## The entries of the free list -/

/-- The free list depends on the words of its blocks. -/
theorem availEntries_congr {m m' : Words} {n head : ℕ}
    (hm : ∀ p ∈ availEntries m n head, m' p = m p) :
    availEntries m' n head = availEntries m n head := by
  induction n generalizing head with
  | zero => rfl
  | succ n ih =>
    unfold availEntries at hm ⊢
    rw [hm head (by simp), ih (fun p hp => hm p (List.mem_cons_of_mem _ hp))]

/-- A chain of slots is the free list. -/
theorem SlotChain.availEntries {m : Words} {n head : ℕ} {av : List ℕ} (h : SlotChain m head av)
    (hn : n ≤ av.length) : availEntries m n head = av.take n := by
  induction n generalizing head av with
  | zero => rfl
  | succ n ih =>
    cases av with
    | nil => simp at hn
    | cons p ps =>
      obtain ⟨rfl, hps⟩ := h
      rw [List.take_succ_cons, Analysis.availEntries, ih hps (by simpa using hn)]

/-! ## Runs -/

/-- Every block of the pool is handed out or available, and not both. -/
structure MblkInv (blocks : List ℕ) (s : MblkSys) : Prop where
  perm : (s.live ++ availEntries s.mem s.pool.blkAvail s.pool.availList).Perm blocks
  whole : s.pool.blkWhole = blocks.length
  nodup : blocks.Nodup
  inside : ∀ p ∈ blocks, InPool s.pool p
  apart : ∀ p ∈ blocks, ∀ q ∈ blocks, p ≠ q → p + s.pool.blkSize ≤ q ∨ q + s.pool.blkSize ≤ p

section Runs

variable {blocks : List ℕ} {s s' : MblkSys} {act : MblkAct} {p q : ℕ}

/-- The free list is as long as the count says. -/
theorem availEntries_length (m : Words) (n head : ℕ) : (availEntries m n head).length = n := by
  induction n generalizing head with
  | zero => rfl
  | succ n ih => rw [availEntries, List.length_cons, ih]

/-- A block of the pool is given out or free. -/
theorem MblkInv.mem (h : MblkInv blocks s) : p ∈ blocks ↔
    p ∈ s.live ∨ p ∈ availEntries s.mem s.pool.blkAvail s.pool.availList := by
  rw [← h.perm.mem_iff, List.mem_append]

/-- And not both. -/
theorem MblkInv.disjoint (h : MblkInv blocks s) (hp : p ∈ s.live)
    (hq : q ∈ availEntries s.mem s.pool.blkAvail s.pool.availList) : p ≠ q :=
  (List.nodup_append.1 (h.perm.nodup_iff.2 h.nodup)).2.2 p hp q hq

/-- The free list does not go through a block that is handed out. -/
theorem MblkInv.not_inLive (h : MblkInv blocks s) {addr : ℕ} (ha : InLive s addr)
    (hq : q ∈ availEntries s.mem s.pool.blkAvail s.pool.availList) : q ≠ addr := by
  obtain ⟨p, hp, hlo, hhi⟩ := ha
  have := h.apart p (h.mem.2 (.inl hp)) q (h.mem.2 (.inr hq)) (h.disjoint hp hq)
  omega

/-- By the invariant the accounts are right. -/
theorem MblkInv.accounts (h : MblkInv blocks s) : MblkAccounts s where
  counted := by
    have := h.perm.length_eq
    rw [List.length_append, availEntries_length] at this
    rw [h.whole]
    omega
  nodup := (List.nodup_append.1 (h.perm.nodup_iff.2 h.nodup)).2.1
  notLive := fun p hp hlive => h.disjoint hlive hp rfl
  inside := fun p hp => h.inside p (h.mem.2 (.inr hp))
  allocs := by
    unfold mblkAlloc
    split <;> simp_all
  fresh := by
    intro r hr
    unfold mblkAlloc at hr
    split at hr
    · next hpos =>
        obtain ⟨n, hn⟩ : ∃ n, s.pool.blkAvail = n + 1 := ⟨s.pool.blkAvail - 1, by omega⟩
        have hmem : s.pool.availList ∈ availEntries s.mem s.pool.blkAvail s.pool.availList := by
          rw [hn]
          exact List.mem_cons_self
        obtain rfl := Option.some.inj hr
        exact ⟨fun hlive => h.disjoint hlive hmem rfl, h.inside _ (h.mem.2 (.inr hmem))⟩
    · cases hr

/-- Every step keeps the invariant. -/
theorem MblkInv.step (h : MblkInv blocks s) (hs : mblkStep s act = some s') : MblkInv blocks s' := by
  cases act with
  | alloc =>
    rw [mblkStep, mblkAlloc] at hs
    by_cases hpos : 0 < s.pool.blkAvail
    · simp only [if_pos hpos] at hs
      obtain rfl := Option.some.inj hs
      obtain ⟨n, hn⟩ : ∃ n, s.pool.blkAvail = n + 1 := ⟨s.pool.blkAvail - 1, by omega⟩
      have hperm := h.perm
      rw [hn, availEntries] at hperm
      refine ⟨?_, h.whole, h.nodup, h.inside, h.apart⟩
      simp only [hn, Nat.add_sub_cancel]
      exact List.perm_middle.symm.trans hperm
    · simp only [if_neg hpos] at hs
      obtain rfl := Option.some.inj hs
      exact h
  | free blk =>
    rw [mblkStep, mblkFree] at hs
    split at hs
    · next hmem =>
        obtain rfl := Option.some.inj hs
        refine ⟨?_, h.whole, h.nodup, h.inside, h.apart⟩
        simp only [availEntries, setWord_same]
        rw [availEntries_congr fun p hp => setWord_ne (h.disjoint hmem hp).symm]
        have hback : (blk :: s.live.erase blk).Perm s.live := (List.perm_cons_erase hmem).symm
        exact (List.perm_middle.trans (hback.append_right _)).trans h.perm
    · cases hs
  | write addr val =>
    rw [mblkStep] at hs
    split at hs
    · next hin =>
        obtain rfl := Option.some.inj hs
        refine ⟨?_, h.whole, h.nodup, h.inside, h.apart⟩
        rw [availEntries_congr fun p hp => setWord_ne (h.not_inLive hin hp)]
        exact h.perm
    · cases hs

end Runs

/-! ## The initialisation -/

section Init

variable {m : Words} {poolStart blkSize poolSize : ℕ} {l : List ℕ}

/-- The parameters that are accepted. -/
theorem mblkPoolInit_accepts (hps : poolStart ≠ 0) (hsz : addSize blkSize blkSize ≤ poolSize)
    (hal : poolStart % 4 = 0 ∧ blkSize % 4 = 0 ∧ poolSize % 4 = 0) :
    mblkPoolInit m poolStart blkSize poolSize ≠ some none := by
  intro h
  unfold mblkPoolInit krhinoMblkPoolInit at h
  rw [if_neg hps, if_neg (by omega), if_neg (by omega)] at h
  simp only at h
  split at h <;> cases h

/-- What a pool is made of when the loop ends. -/
theorem mblkPoolInit_of_linked (hacc : mblkPoolInit m poolStart blkSize poolSize ≠ some none)
    (hps : poolStart < sizeRange) (hbs : blkSize < sizeRange)
    (hl : Linked blkSize (addSize poolStart poolSize) poolStart l) :
    ∃ m' last pool, mblkPoolInit m poolStart blkSize poolSize = some (some (m', pool)) ∧
      l.getLast? = some last ∧ SlotChain m' poolStart l ∧
      pool = { poolStart := poolStart, poolEnd := addSize poolStart poolSize, blkSize := blkSize,
               blkAvail := pool.blkWhole, blkWhole := pool.blkWhole, availList := poolStart } ∧
      pool.blkWhole =
        l.length - 1 + if addSize last blkSize = addSize poolStart poolSize then 1 else 0 := by
  obtain ⟨m', last, hloop, hlast, -, hchain⟩ := hl.loop m (hl.length_le hps hbs) 0
  unfold mblkPoolInit krhinoMblkPoolInit at hacc ⊢
  split at hacc
  · exact absurd rfl hacc
  · split at hacc
    · exact absurd rfl hacc
    · split at hacc
      · exact absurd rfl hacc
      · next h₀ h₁ h₂ =>
          rw [if_neg h₀, if_neg h₁, if_neg h₂]
          simp only [hloop, Nat.zero_add]
          exact ⟨_, last, _, rfl, hlast, hchain 0, rfl, rfl⟩

/-- A pool was made, so the loop has ended. -/
theorem linked_of_mblkPoolInit {m' : Words} {pool : MblkPool}
    (h : mblkPoolInit m poolStart blkSize poolSize = some (some (m', pool))) :
    ∃ l, Linked blkSize (addSize poolStart poolSize) poolStart l := by
  unfold mblkPoolInit krhinoMblkPoolInit at h
  split at h
  · cases h
  · split at h
    · cases h
    · split at h
      · cases h
      · simp only at h
        split at h
        · cases h
        · next hloop => exact linked_of_loop hloop

/-- The accounts hold over every run if the blocks counted lie apart in the pool. -/
theorem mblkSound_of_linked (hacc : mblkPoolInit m poolStart blkSize poolSize ≠ some none)
    (hps : poolStart < sizeRange) (hbs : blkSize < sizeRange)
    (hl : Linked blkSize (addSize poolStart poolSize) poolStart l) {last n : ℕ}
    (hlast : l.getLast? = some last)
    (hn : n = l.length - 1 + if addSize last blkSize = addSize poolStart poolSize then 1 else 0)
    (hin : ∀ p ∈ l.take n, poolStart ≤ p ∧ p + blkSize ≤ addSize poolStart poolSize)
    (hapart : ∀ p ∈ l.take n, ∀ q ∈ l.take n, p ≠ q → p + blkSize ≤ q ∨ q + blkSize ≤ p) :
    MblkSound m poolStart blkSize poolSize := by
  obtain ⟨m', last', pool, hinit, hlast', hchain, hpool, hwhole⟩ :=
    mblkPoolInit_of_linked hacc hps hbs hl
  obtain rfl : last = last' := by simpa using hlast.symm.trans hlast'
  obtain ⟨l', hl'⟩ := hl.head
  have hpos : 0 < l.length := by rw [hl']; simp
  have hle : n ≤ l.length := by
    rw [hn]
    split <;> omega
  rw [← hn] at hwhole
  have hinv : MblkInv (l.take n) ⟨m', pool, []⟩ := by
    rw [hpool, hwhole]
    refine ⟨?_, ?_, hl.nodup.sublist (List.take_sublist n l), hin, hapart⟩
    · simp [hchain.availEntries hle]
    · simp [hle]
  refine ⟨m', pool, hinit, fun acts s hrun => ?_⟩
  have hs : MblkInv (l.take n) s := runSteps_inv (P := fun _ _ => True)
    (fun _ _ _ hi _ hs => hi.step hs) hinv (stepsMeet_of_forall (fun _ _ _ => trivial) _) hrun
  exact hs.accounts

/-- The blocks of a pool whose end is reached in `j` steps. -/
theorem linked_of_reaches {poolEnd j : ℕ} (hj : 0 < j) (hge : poolEnd ≤ poolStart + j * blkSize)
    (hlt : poolStart + j * blkSize < sizeRange)
    (hbelow : ∀ i, 0 < i → i < j → poolStart + i * blkSize < poolEnd) :
    Linked blkSize poolEnd poolStart ((List.range j).map fun i => poolStart + i * blkSize) := by
  obtain ⟨j, rfl⟩ : ∃ n, j = n + 1 := ⟨j - 1, by omega⟩
  have hmul {i : ℕ} (hi : i ≤ j + 1) : i * blkSize ≤ (j + 1) * blkSize := Nat.mul_le_mul_right _ hi
  have hsum : poolStart + (j + 1) * blkSize = poolStart + j * blkSize + blkSize := by ring
  refine (linked_iff (j := j) fun i hi hij => ⟨?_, hbelow i hi (by omega)⟩).2
    ⟨[poolStart + j * blkSize], .last ?_, by simp [List.range_succ]⟩
  · have := hmul (show i ≤ j + 1 by omega)
    omega
  · rw [addSize_eq (by omega)]
    omega

/-- A pool whose blocks fill it exactly is sound. -/
theorem StrideFits.sound (hacc : mblkPoolInit m poolStart blkSize poolSize ≠ some none)
    (hps : poolStart < sizeRange) (hbs : blkSize < sizeRange)
    (hfits : StrideFits poolStart blkSize (addSize poolStart poolSize)) :
    MblkSound m poolStart blkSize poolSize := by
  generalize hE : addSize poolStart poolSize = poolEnd at *
  rcases hfits with hpast | hreach
  · have hl : Linked blkSize (addSize poolStart poolSize) poolStart [poolStart] := .last (by omega)
    have hlast : [poolStart].getLast? = some poolStart := rfl
    refine mblkSound_of_linked (n := 0) hacc hps hbs hl hlast ?_ (by simp) (by simp)
    rw [if_neg (by omega)]
    rfl
  · obtain ⟨k, ⟨hge, hlt⟩, hmin⟩ : ∃ k, (poolEnd ≤ poolStart + (k + 1) * blkSize ∧
        poolStart + (k + 1) * blkSize < sizeRange) ∧ ∀ i < k, ¬ (poolEnd ≤ poolStart +
          (i + 1) * blkSize ∧ poolStart + (i + 1) * blkSize < sizeRange) :=
      ⟨Nat.find hreach, Nat.find_spec hreach, fun i hi => Nat.find_min hreach hi⟩
    have hmul {i : ℕ} (hi : i ≤ k + 1) : i * blkSize ≤ (k + 1) * blkSize :=
      Nat.mul_le_mul_right _ hi
    have hbelow : ∀ i, 0 < i → i < k + 1 → poolStart + i * blkSize < poolEnd := by
      intro i hi hik
      obtain ⟨i, rfl⟩ : ∃ n, i = n + 1 := ⟨i - 1, by omega⟩
      have := hmul (show i + 1 ≤ k + 1 by omega)
      by_contra hc
      exact hmin i (by omega) ⟨by omega, by omega⟩
    have hlast : ((List.range (k + 1)).map fun i => poolStart + i * blkSize).getLast? =
        some (poolStart + k * blkSize) := by simp [List.range_succ]
    have hsum : poolStart + (k + 1) * blkSize = poolStart + k * blkSize + blkSize := by ring
    have hadd : addSize (poolStart + k * blkSize) blkSize = poolStart + (k + 1) * blkSize := by
      rw [hsum, addSize_eq (by omega)]
    -- The blocks counted are the first ones; the last of them may end at the end of the pool.
    have hcounted : ∀ n p, (n = k + if addSize (poolStart + k * blkSize) blkSize = poolEnd then 1
        else 0) → p ∈ ((List.range (k + 1)).map fun i => poolStart + i * blkSize).take n →
        ∃ i, p = poolStart + i * blkSize ∧ poolStart + (i + 1) * blkSize ≤ poolEnd := by
      intro n p hn hp
      rw [← List.map_take, List.take_range] at hp
      obtain ⟨i, hi, rfl⟩ := List.mem_map.1 hp
      have hi := List.mem_range.1 hi
      refine ⟨i, rfl, ?_⟩
      rcases Nat.lt_or_ge (i + 1) (k + 1) with hik | hik
      · exact (hbelow (i + 1) (by omega) hik).le
      · rw [hadd] at hn
        split at hn
        · obtain rfl : i = k := by omega
          omega
        · omega
    have hl := linked_of_reaches (by omega) hge hlt hbelow
    rw [← hE] at hl
    refine mblkSound_of_linked hacc hps hbs hl hlast rfl ?_ ?_
    · intro p hp
      obtain ⟨i, rfl, hi⟩ := hcounted _ p (by simp [hE]) hp
      rw [Nat.succ_mul] at hi
      omega
    · intro p hp q hq hne
      obtain ⟨i, rfl, -⟩ := hcounted _ p (by simp [hE]) hp
      obtain ⟨j, rfl, -⟩ := hcounted _ q (by simp [hE]) hq
      have hij : i ≠ j := fun h => hne (by rw [h])
      rcases Nat.lt_or_gt_of_ne hij with h | h
      · have := Nat.mul_le_mul_right blkSize (show i + 1 ≤ j from h)
        rw [Nat.succ_mul] at this
        omega
      · have := Nat.mul_le_mul_right blkSize (show j + 1 ≤ i from h)
        rw [Nat.succ_mul] at this
        omega

/-- A sound pool has its blocks inside from the start. -/
theorem MblkSound.linked (h : MblkSound m poolStart blkSize poolSize) (hps : poolStart < sizeRange)
    (hbs : blkSize < sizeRange) : ∃ l last, Linked blkSize (addSize poolStart poolSize) poolStart l ∧
      l.getLast? = some last ∧ ∀ p ∈ l.take (l.length - 1 +
        if addSize last blkSize = addSize poolStart poolSize then 1 else 0),
          p + blkSize ≤ addSize poolStart poolSize := by
  obtain ⟨m', pool, hinit, hruns⟩ := h
  obtain ⟨l, hl⟩ := linked_of_mblkPoolInit hinit
  obtain ⟨m'', last, pool', hinit', hlast, hchain, hpool, hwhole⟩ :=
    mblkPoolInit_of_linked (by rw [hinit]; simp) hps hbs hl
  obtain ⟨rfl, rfl⟩ : m' = m'' ∧ pool = pool' := by simpa [hinit] using hinit'
  have hacc := hruns [] _ rfl
  obtain ⟨l', hl'⟩ := hl.head
  have hpos : 0 < l.length := by rw [hl']; simp
  refine ⟨l, last, hl, hlast, fun p hp => ?_⟩
  rw [← hwhole] at hp
  have hle : pool.blkWhole ≤ l.length := by
    rw [hwhole]
    split <;> omega
  have hin := hacc.inside p
  rw [hpool] at hin
  simp only [hchain.availEntries hle] at hin
  exact (hin hp).2

/-- And in a sound pool they do. -/
theorem MblkSound.fits (h : MblkSound m poolStart blkSize poolSize) (hps : poolStart < sizeRange)
    (hbs : blkSize < sizeRange) (hsz : poolSize < sizeRange) :
    StrideFits poolStart blkSize (addSize poolStart poolSize) := by
  obtain ⟨l, last, hl, hlast, hin⟩ := h.linked hps hbs
  have hE := addSize_lt hps hsz
  generalize addSize poolStart poolSize = poolEnd at *
  by_contra hnot
  obtain ⟨hpast, hreach⟩ := not_or.1 hnot
  have hbelow : ∀ k, poolStart + (k + 1) * blkSize < sizeRange →
      poolStart + (k + 1) * blkSize < poolEnd := by
    intro k hk
    by_contra hc
    exact hreach ⟨k, by omega, hk⟩
  by_cases hzero : blkSize = 0
  · -- The next block is the same one.
    subst hzero
    have hself : addSize poolStart 0 = poolStart := addSize_eq hps
    have hlt := hbelow 0 (by omega)
    cases hl with
    | last hstop => omega
    | next hgo hl' =>
      obtain ⟨l', rfl⟩ := hl'.head
      have hnd := (Linked.next hgo hl').nodup
      rw [hself] at hnd
      simp at hnd
  · -- The step that wraps round is made from a block that is counted.
    have hex : ∃ k, sizeRange ≤ poolStart + (k + 1) * blkSize := by
      refine ⟨sizeRange, ?_⟩
      have := Nat.mul_le_mul_left (sizeRange + 1) (show 1 ≤ blkSize by omega)
      omega
    obtain ⟨j, hj, hmin⟩ : ∃ j, sizeRange ≤ poolStart + (j + 1) * blkSize ∧
        ∀ i < j, ¬ sizeRange ≤ poolStart + (i + 1) * blkSize :=
      ⟨Nat.find hex, Nat.find_spec hex, fun i hi => Nat.find_min hex hi⟩
    have hsum : poolStart + (j + 1) * blkSize = poolStart + j * blkSize + blkSize := by ring
    have hsteps : ∀ i, 0 < i → i ≤ j →
        poolStart + i * blkSize < sizeRange ∧ poolStart + i * blkSize < poolEnd := by
      intro i hi hij
      obtain ⟨i, rfl⟩ : ∃ n, i = n + 1 := ⟨i - 1, by omega⟩
      have hlt := not_le.1 (hmin i (by omega))
      exact ⟨hlt, hbelow i hlt⟩
    have hwrap : addSize (poolStart + j * blkSize) blkSize ≤ poolEnd := by
      rcases Nat.eq_zero_or_pos j with rfl | hpos
      · simpa using hpast
      · have := hsteps j hpos le_rfl
        unfold addSize
        split <;> omega
    obtain ⟨l', hl', rfl⟩ := (linked_iff hsteps).1 hl
    have hp : poolStart + j * blkSize + blkSize ≤ poolEnd := by
      apply hin
      obtain ⟨l'', rfl⟩ := hl'.head
      rw [List.take_append]
      refine List.mem_append_right _ ?_
      rw [List.length_map, List.length_range, List.length_append, List.length_map,
        List.length_range, List.length_cons]
      cases l'' with
      | nil =>
        obtain rfl : poolStart + j * blkSize = last := by simpa using hlast
        have hstop : ¬ addSize (poolStart + j * blkSize) blkSize < poolEnd := by
          cases hl' with
          | last hstop => exact hstop
          | next _ hl'' => exact absurd hl''.head (by simp)
        rw [if_pos (by omega)]
        simp
      | cons q l'' =>
        rw [List.length_cons, show ∀ c, j + (l''.length + 1 + 1) - 1 + c - j =
          (l''.length + c) + 1 by omega]
        simp
    omega

/-- **A fixed-block pool is sound exactly when its steps lead to its end.** -/
theorem mblk_pool_sound_iff (m : Words) (poolStart blkSize poolSize : ℕ) (hps : poolStart < sizeRange)
    (hbs : blkSize < sizeRange) (hsz : poolSize < sizeRange)
    (hacc : mblkPoolInit m poolStart blkSize poolSize ≠ some none) :
    MblkSound m poolStart blkSize poolSize ↔
      StrideFits poolStart blkSize (addSize poolStart poolSize) :=
  ⟨fun h => h.fits hps hbs hsz, fun h => h.sound hacc hps hbs⟩

end Init

/-- Two blocks of eight bytes in a pool of twenty. -/
theorem mblk_pool_sound_iff_tail :
    (64 < sizeRange ∧ 8 < sizeRange ∧ 20 < sizeRange ∧
      mblkPoolInit (fun _ => 0) 64 8 20 ≠ some none) ∧
    (MblkSound (fun _ => 0) 64 8 20 ↔ StrideFits 64 8 (addSize 64 20)) := by
  have h₁ : 64 < sizeRange := by rw [sizeRange_eq]; decide
  have h₂ : 8 < sizeRange := by rw [sizeRange_eq]; decide
  have h₃ : 20 < sizeRange := by rw [sizeRange_eq]; decide
  have hacc : mblkPoolInit (fun _ => 0) 64 8 20 ≠ some none :=
    mblkPoolInit_accepts (by decide) (by rw [addSize_eq (by omega)]; decide) (by decide)
  exact ⟨⟨h₁, h₂, h₃, hacc⟩, mblk_pool_sound_iff _ 64 8 20 h₁ h₂ h₃ hacc⟩

/-- A block size of zero passes the checks, and the loop does not end. -/
theorem zero_blk_size_not_sound :
    mblkPoolInit (fun _ => 0) 64 0 64 ≠ some none ∧ ¬ MblkSound (fun _ => 0) 64 0 64 := by
  have hlt : 128 < sizeRange := by rw [sizeRange_eq]; decide
  refine ⟨mblkPoolInit_accepts (by decide) (by rw [addSize_eq (by omega)]; decide) (by decide),
    fun h => ?_⟩
  have hfits := h.fits (by omega) (by omega) (by omega)
  rw [addSize_eq (show 64 + 64 < sizeRange by omega)] at hfits
  rcases hfits with hpast | ⟨k, hge, -⟩
  · rw [addSize_eq (by omega)] at hpast
    omega
  · omega

end GenieSdk.Analysis
