import GenieSdk.Analysis.KvTraverse
import GenieSdk.Analysis.KvSearch
import GenieSdk.Model.KvCalls

/-!
# The reserved block

A collection copies into a clean block, and `KV_GC_RESERVED` blocks are meant to be kept for it.
`clean_blk_nums` is the number of clean blocks after every call. But with more than two blocks the search
for a write position takes a clean block without a look at the reserve: **one clean block is always
left if and only if no set takes the last one** (`reserve_kept_iff`).
-/

set_option autoImplicit false

namespace GenieSdk.Analysis.Kv

open GenieSdk.Lib
open GenieSdk.Model

/-- The blocks that are marked clean. -/
def cleanBlks (c : KvConf) (s : KvMgr) : Finset ℕ :=
  (Finset.range c.blkNums).filter fun i => (s.blockInfo i).state = blkStateClean

/-- Nothing but used blocks becoming dirty. -/
structure OnlyDirtied (s s' : KvMgr) : Prop where
  nums : s'.cleanBlkNums = s.cleanBlkNums
  state : ∀ i, (s'.blockInfo i).state = (s.blockInfo i).state ∨
    (s.blockInfo i).state = blkStateUsed ∧ (s'.blockInfo i).state = blkStateDirty

/-- The counter is right, and there are no blocks but those of the partition. -/
structure CleanCounted (c : KvConf) (s : KvMgr) : Prop where
  nums : s.cleanBlkNums = (cleanBlks c s).card
  outside : ∀ i, c.blkNums ≤ i → (s.blockInfo i).state = 0

section Dirtied

variable {c : KvConf} {s s' s'' : KvMgr} {i : ℕ}

/-- The clean blocks are those of the partition whose state is clean. -/
theorem mem_cleanBlks : i ∈ cleanBlks c s ↔ i < c.blkNums ∧ (s.blockInfo i).state = blkStateClean := by
  simp [cleanBlks]

/-- Nothing is done. -/
theorem OnlyDirtied.refl (s : KvMgr) : OnlyDirtied s s := ⟨rfl, fun _ => .inl rfl⟩

/-- Two steps that do no more than mark used blocks as dirty. -/
theorem OnlyDirtied.trans (h : OnlyDirtied s s') (h' : OnlyDirtied s' s'') : OnlyDirtied s s'' := by
  refine ⟨h'.nums.trans h.nums, fun i => ?_⟩
  rcases h.state i with heq | ⟨hused, hdirty⟩
  · rw [← heq]
    exact h'.state i
  · refine .inr ⟨hused, ?_⟩
    rcases h'.state i with heq' | ⟨hused', -⟩
    · rw [heq', hdirty]
    · exact absurd (hdirty.symm.trans hused') (by decide)

/-- Such a step makes no block clean, and none that was clean unclean. -/
theorem OnlyDirtied.clean_iff (h : OnlyDirtied s s') (i : ℕ) :
    (s'.blockInfo i).state = blkStateClean ↔ (s.blockInfo i).state = blkStateClean := by
  rcases h.state i with heq | ⟨hused, hdirty⟩
  · rw [heq]
  · rw [hused, hdirty]
    decide

/-- The clean blocks stay. -/
theorem OnlyDirtied.cleanBlks_eq (h : OnlyDirtied s s') : cleanBlks c s' = cleanBlks c s := by
  ext i
  rw [mem_cleanBlks, mem_cleanBlks, h.clean_iff]

/-- A block that is not known to the store stays so. -/
theorem OnlyDirtied.zero (h : OnlyDirtied s s') (hz : (s.blockInfo i).state = 0) :
    (s'.blockInfo i).state = 0 := by
  rcases h.state i with heq | ⟨hused, -⟩
  · rw [heq, hz]
  · exact absurd (hz.symm.trans hused) (by decide)

/-- The counter of clean blocks stays right. -/
theorem CleanCounted.onlyDirtied (h : CleanCounted c s) (hd : OnlyDirtied s s') :
    CleanCounted c s' := by
  refine ⟨?_, fun i hi => hd.zero (h.outside i hi)⟩
  rw [hd.nums, hd.cleanBlks_eq, h.nums]

/-- A step that changes no state of a block. -/
theorem onlyDirtied_of_eq (hn : s'.cleanBlkNums = s.cleanBlkNums)
    (hs : ∀ i, (s'.blockInfo i).state = (s.blockInfo i).state) : OnlyDirtied s s' :=
  ⟨hn, fun i => .inl (hs i)⟩

/-- Noting the space of a block leaves all states. -/
theorem onlyDirtied_setSpace (s : KvMgr) (i space : ℕ) : OnlyDirtied s (s.setSpace i space) := by
  refine onlyDirtied_of_eq rfl fun j => ?_
  unfold KvMgr.setSpace KvMgr.setInfo
  dsimp only
  split
  case isTrue h => rw [h]
  case isFalse => rfl

/-- So does waking the collector. -/
theorem onlyDirtied_trigger (s : KvMgr) : OnlyDirtied s (kvTriggerGc s) := by
  unfold kvTriggerGc
  split
  · exact .refl s
  · exact onlyDirtied_of_eq rfl fun _ => rfl

/-- A used block is marked dirty. -/
theorem onlyDirtied_setState (h : (s.blockInfo i).state = blkStateUsed) (pos : ℕ) :
    OnlyDirtied s ((kvStateSet s pos blkStateDirty).setState i blkStateDirty) := by
  refine ⟨rfl, fun j => ?_⟩
  by_cases hj : j = i
  · rw [hj]
    exact .inr ⟨h, by simp [KvMgr.setState, KvMgr.setInfo]⟩
  · exact .inl (by simp [KvMgr.setState, KvMgr.setInfo, hj, kvStateSet, kvOsPartitionWrite, KvMgr.doFlash])

/-- Marking a block dirty does no more than that. -/
theorem onlyDirtied_markDirty (c : KvConf) (s : KvMgr) (i : ℕ) : OnlyDirtied s (kvMarkDirty c s i) := by
  unfold kvMarkDirty
  split
  case isTrue h => exact onlyDirtied_setState h _
  case isFalse => exact .refl s

/-- Nor does killing an item. -/
theorem onlyDirtied_kill (c : KvConf) (s : KvMgr) (off : ℕ) : OnlyDirtied s (kvItemKill c s off) := by
  have hwrite : OnlyDirtied s (kvStateSet s off itemStateDelete) := onlyDirtied_of_eq rfl fun _ => rfl
  unfold kvItemKill
  dsimp only
  split
  case isTrue h => exact hwrite.trans (onlyDirtied_setState h _)
  case isFalse => exact hwrite

/-- Nor does `kv_item_del`. -/
theorem onlyDirtied_del (c : KvConf) (s : KvMgr) (item : KvItem) (flag : KvDelFlag) :
    OnlyDirtied s (kvItemDel c s item flag) := by
  cases flag with
  | delete => exact onlyDirtied_kill c s _
  | update =>
    unfold kvItemDel
    dsimp only
    split
    · exact onlyDirtied_kill c s _
    · exact .refl s

/-- **The callbacks.** -/
theorem onlyDirtied_callback (c : KvConf) (cb : KvCallback) (s : KvMgr) (item : KvItem) :
    OnlyDirtied s (cb.func c s item).2.2 := by
  cases cb with
  | recovery =>
    change OnlyDirtied s (itemRecoveryCb c s item).2.2
    unfold itemRecoveryCb
    dsimp only
    split_ifs
    · exact onlyDirtied_del c s _ _
    · exact .refl s
    · exact onlyDirtied_del c s _ _
  | find key =>
    change OnlyDirtied s (itemFindCb c key s item).2.2
    unfold itemFindCb
    dsimp only
    split_ifs
    all_goals exact .refl s
  | gc gcIdx =>
    have hwrite : ∀ pos bytes wp, OnlyDirtied s { kvOsPartitionWrite s pos bytes with writePos := wp } :=
      fun _ _ _ => onlyDirtied_of_eq rfl fun _ => rfl
    exact (hwrite _ _ _).trans (onlyDirtied_setSpace _ _ _)
  | delByPrefix keyPrefix =>
    change OnlyDirtied s (itemDelByPrefixCb c keyPrefix s item).2.2
    unfold itemDelByPrefixCb
    dsimp only
    split_ifs
    · exact .refl s
    · exact onlyDirtied_del c s item .delete
    · exact .refl s
  | delAll exPrefix =>
    change OnlyDirtied s (itemDelAllCb c exPrefix s item).2.2
    unfold itemDelAllCb
    cases exPrefix with
    | none =>
      dsimp only
      split_ifs
      · exact onlyDirtied_del c s item .delete
      · exact .refl s
    | some exPrefix =>
      dsimp only
      split_ifs
      · exact onlyDirtied_del c s item .delete
      · exact onlyDirtied_del c s item .delete
      · exact .refl s
      · exact .refl s

/-- Nor does the end of a traversal. -/
theorem onlyDirtied_traverseEnd (c : KvConf) (s : KvMgr) (i pos : ℕ) :
    OnlyDirtied s (kvTraverseEnd c s i pos) := onlyDirtied_setSpace s i _

/-- **The traversal.** -/
theorem Scan.onlyDirtied {func : ItemFunc} {pos : ℕ} {calls : List (KvMgr × KvItem)}
    {r : Option KvItem × KvMgr} (hf : ∀ s item, OnlyDirtied s (func s item).2.2)
    (h : Scan c func i pos s calls r) : OnlyDirtied s r.2 := by
  induction h with
  | out _ => exact onlyDirtied_traverseEnd c _ i _
  | erased _ _ => exact onlyDirtied_traverseEnd c _ i _
  | garbage _ _ _ ih => exact (onlyDirtied_markDirty c _ i).trans ih
  | dead _ _ _ ih => exact (onlyDirtied_markDirty c _ i).trans ih
  | @stopped pos len s s' item item' res _ _ hcall _ =>
    have hs := hf s item
    rwa [hcall] at hs
  | @cont pos len s s' item item' calls r _ _ hcall _ ih =>
    have hs := hf s item
    rw [hcall] at hs
    exact hs.trans ih

/-- Nor does a traversal with any of the callbacks. -/
theorem onlyDirtied_traverse (cb : KvCallback) (s : KvMgr) (i : ℕ) :
    OnlyDirtied s (kvItemTraverse c (cb.func c) s i).2 := by
  obtain ⟨calls, h⟩ := scan_kvItemTraverse c (cb.func c) i s
  exact h.onlyDirtied (onlyDirtied_callback c cb)

/-- Nor does the search in some blocks. -/
theorem onlyDirtied_getIn (key : List UInt8) (is : List ℕ) (s : KvMgr) :
    OnlyDirtied s (kvItemGetIn c key is s).2 := by
  induction is generalizing s with
  | nil => exact .refl s
  | cons i is ih =>
    unfold kvItemGetIn
    split
    · have ht := onlyDirtied_traverse (c := c) (.find key) s i
      change OnlyDirtied s (kvItemTraverse c (itemFindCb c key) s i).2 at ht
      cases hr : kvItemTraverse c (itemFindCb c key) s i with
      | mk found t =>
      rw [hr] at ht
      cases found with
      | some item => exact ht
      | none => exact ht.trans (ih t)
    · exact ih s

/-- Nor does the search in all blocks. -/
theorem onlyDirtied_get (s : KvMgr) (key : List UInt8) : OnlyDirtied s (kvItemGet c s key).2 :=
  onlyDirtied_getIn key _ s

/-- Nor does a traversal of several blocks. -/
theorem onlyDirtied_foldl (cb : KvCallback) (is : List ℕ) (s : KvMgr) :
    OnlyDirtied s (is.foldl (fun s i => (kvItemTraverse c (cb.func c) s i).2) s) := by
  induction is generalizing s with
  | nil => exact .refl s
  | cons i is ih => exact (onlyDirtied_traverse cb s i).trans (ih _)

end Dirtied

/-! ## Formatting and taking a block -/

section Blocks

variable {c : KvConf} {s s' : KvMgr} {i : ℕ}

/-- Setting the state of one block leaves the others. -/
theorem setState_state (s : KvMgr) (i j : ℕ) (st : UInt8) :
    ((s.setState i st).blockInfo j).state = if j = i then st else (s.blockInfo j).state := by
  unfold KvMgr.setState KvMgr.setInfo
  dsimp only
  split <;> rfl

/-- The number of blocks does not change. -/
theorem CleanCounted.of_card (hi : i < c.blkNums) (h : CleanCounted c s)
    (hs : ∀ j, j ≠ i → (s'.blockInfo j).state = (s.blockInfo j).state)
    (hn : s'.cleanBlkNums = (cleanBlks c s').card) : CleanCounted c s' := by
  refine ⟨hn, fun j hj => ?_⟩
  rw [hs j (by omega)]
  exact h.outside j hj

/-- A block that becomes clean joins the clean ones. -/
theorem cleanBlks_insert (hi : i < c.blkNums) (hst : (s'.blockInfo i).state = blkStateClean)
    (hs : ∀ j, j ≠ i → (s'.blockInfo j).state = (s.blockInfo j).state) :
    cleanBlks c s' = insert i (cleanBlks c s) := by
  ext j
  rw [Finset.mem_insert, mem_cleanBlks, mem_cleanBlks]
  by_cases hj : j = i
  · simp [hj, hi, hst]
  · rw [hs j hj]
    simp [hj]

/-- A block that is no longer clean leaves them. -/
theorem cleanBlks_erase (hst : (s'.blockInfo i).state ≠ blkStateClean)
    (hs : ∀ j, j ≠ i → (s'.blockInfo j).state = (s.blockInfo j).state) :
    cleanBlks c s' = (cleanBlks c s).erase i := by
  ext j
  rw [Finset.mem_erase, mem_cleanBlks, mem_cleanBlks]
  by_cases hj : j = i
  · simp [hj, hst]
  · rw [hs j hj]
    simp [hj]

/-- `kv_block_format` makes its block clean and leaves the others. -/
theorem kvBlockFormat_state (c : KvConf) (s : KvMgr) (i j : ℕ) :
    ((kvBlockFormat c s i).blockInfo j).state =
      if j = i then blkStateClean else (s.blockInfo j).state := by
  unfold kvBlockFormat KvMgr.setInfo
  dsimp only
  split <;> rfl

/-- So that block joins the clean ones. -/
theorem cleanBlks_format (hi : i < c.blkNums) :
    cleanBlks c (kvBlockFormat c s i) = insert i (cleanBlks c s) :=
  cleanBlks_insert hi (by rw [kvBlockFormat_state, if_pos rfl]) fun j hj => by
    rw [kvBlockFormat_state, if_neg hj]

/-- A block that was not clean is formatted. -/
theorem CleanCounted.format (h : CleanCounted c s) (hi : i < c.blkNums)
    (hst : (s.blockInfo i).state ≠ blkStateClean) : CleanCounted c (kvBlockFormat c s i) := by
  refine h.of_card hi (fun j hj => by rw [kvBlockFormat_state, if_neg hj]) ?_
  rw [cleanBlks_format hi, Finset.card_insert_of_notMem fun hm => hst (mem_cleanBlks.1 hm).2, ← h.nums]
  rfl

/-- A clean block gets another state, and is counted off. -/
theorem CleanCounted.take (h : CleanCounted c s) (hi : i < c.blkNums)
    (hst : (s.blockInfo i).state = blkStateClean) (hst' : (s'.blockInfo i).state ≠ blkStateClean)
    (hs : ∀ j, j ≠ i → (s'.blockInfo j).state = (s.blockInfo j).state)
    (hn : s'.cleanBlkNums = s.cleanBlkNums - 1) : CleanCounted c s' := by
  refine h.of_card hi hs ?_
  rw [cleanBlks_erase hst' hs, Finset.card_erase_of_mem (mem_cleanBlks.2 ⟨hi, hst⟩), hn, h.nums]

end Blocks

/-! ## The search for a write position -/

/-- The blocks but `b`, in the order of the search from `b`. -/
def searchOrder (c : KvConf) (b : ℕ) : List ℕ :=
  List.range' (b + 1) (c.blkNums - (b + 1)) ++ List.range b

/-- The block that an item of length `len` makes `kv_calc_position` move on to. -/
def nextBlk (c : KvConf) (s : KvMgr) (len : ℕ) : Option ℕ :=
  let b := s.writePos / c.blkSize
  if b < c.blkNums ∧ ¬ HasSpace s len b ∧ kvGcReserved + 1 < c.blkNums then
    (searchOrder c b).find? fun i => decide (HasSpace s len i)
  else none

section Search

variable {c : KvConf} {s s' : KvMgr} {len b i j fuel p : ℕ}

/-- The round that finds a block. -/
theorem kvCalcScan_found (hne : i ≠ b) (hi : i ≠ c.blkNums) (hspace : HasSpace s len i) :
    kvCalcScan c s len b (fuel + 1) i = some (kvTakeBlk c s i) := by
  unfold kvCalcScan
  rw [if_neg hne]
  dsimp only
  rw [if_neg hi, if_pos (show len < _ from hspace)]
  unfold kvTakeBlk
  dsimp only
  split <;> rfl

/-- A round that finds none. -/
theorem kvCalcScan_next (hne : i ≠ b) (hi : i ≠ c.blkNums) (hspace : ¬ HasSpace s len i) :
    kvCalcScan c s len b (fuel + 1) i = kvCalcScan c s len b fuel (i + 1) := by
  rw [kvCalcScan, if_neg hne]
  dsimp only
  rw [if_neg hi, if_neg (show ¬ len < _ from hspace)]

/-- The rounds up to the block with space. -/
theorem kvCalcScan_upTo (hij : i ≤ j) (hj : j < c.blkNums) (hb : b < i ∨ j < b)
    (hnone : ∀ k, i ≤ k → k < j → ¬ HasSpace s len k) (hspace : HasSpace s len j)
    (hfuel : j < i + fuel) : kvCalcScan c s len b fuel i = some (kvTakeBlk c s j) := by
  induction fuel generalizing i with
  | zero => omega
  | succ fuel ih =>
    rcases hij.eq_or_lt with rfl | hlt
    · exact kvCalcScan_found (by omega) (by omega) hspace
    · rw [kvCalcScan_next (by omega) (by omega) (hnone i (le_refl i) hlt)]
      exact ih hlt (by omega) (fun k hk => hnone k (by omega)) (by omega)

/-- The rounds over a range without space. -/
theorem kvCalcScan_skip (d : ℕ) (hd : i + d ≤ c.blkNums) (hb : b < i ∨ i + d ≤ b)
    (hnone : ∀ k, i ≤ k → k < i + d → ¬ HasSpace s len k) :
    kvCalcScan c s len b (d + fuel) i = kvCalcScan c s len b fuel (i + d) := by
  induction d generalizing i with
  | zero => rw [Nat.zero_add, Nat.add_zero]
  | succ d ih =>
    rw [Nat.succ_add, kvCalcScan_next (by omega) (by omega) (hnone i (le_refl i) (by omega)),
      ih (by omega) (by omega) fun k hk hk' => hnone k (by omega) (by omega)]
    congr 1
    omega

/-- The index is set back to 0. -/
theorem kvCalcScan_wrap (hb : c.blkNums ≠ b) :
    kvCalcScan c s len b (fuel + 1) c.blkNums =
      if HasSpace s len 0 then some (kvTakeBlk c s 0) else kvCalcScan c s len b fuel 1 := by
  rw [kvCalcScan, if_neg hb]
  dsimp only
  rw [if_pos rfl]
  by_cases hspace : HasSpace s len 0
  · rw [if_pos hspace, if_pos (show len < _ from hspace)]
    unfold kvTakeBlk
    dsimp only
    split <;> rfl
  · rw [if_neg hspace, if_neg (show ¬ len < _ from hspace)]

/-- The first block with space in an interval. -/
theorem find_range' {m n : ℕ} {q : ℕ → Bool} (h : (List.range' m n).find? q = some j) :
    m ≤ j ∧ j < m + n ∧ q j = true ∧ ∀ k, m ≤ k → k < j → q k = false := by
  induction n generalizing m with
  | zero => cases h
  | succ n ih =>
    rw [List.range'_succ, List.find?_cons] at h
    cases hq : q m with
    | true =>
      rw [hq] at h
      obtain rfl := Option.some.inj h
      exact ⟨le_refl _, by omega, hq, fun k hk hk' => by omega⟩
    | false =>
      rw [hq] at h
      obtain ⟨h₁, h₂, h₃, h₄⟩ := ih h
      refine ⟨by omega, by omega, h₃, fun k hk hk' => ?_⟩
      rcases hk.eq_or_lt with rfl | hlt
      · exact hq
      · exact h₄ k hlt hk'

/-- The search takes the first block with space. -/
theorem kvCalcScan_searchOrder (hb : b < c.blkNums)
    (h : (searchOrder c b).find? (fun i => decide (HasSpace s len i)) = some j) :
    kvCalcScan c s len b (2 * c.blkNums) (b + 1) = some (kvTakeBlk c s j) := by
  unfold searchOrder at h
  rw [List.find?_append, Option.or_eq_some_iff] at h
  rcases h with h | ⟨hnone, h⟩
  · obtain ⟨hlow, hhigh, hspace, hbefore⟩ := find_range' h
    exact kvCalcScan_upTo hlow (by omega) (.inl (Nat.lt_succ_self b))
      (fun k hk hk' => of_decide_eq_false (hbefore k hk hk')) (of_decide_eq_true hspace) (by omega)
  · rw [List.range_eq_range'] at h
    obtain ⟨-, hhigh, hspace, hbefore⟩ := find_range' h
    have hskip : ∀ k, b + 1 ≤ k → k < b + 1 + (c.blkNums - (b + 1)) → ¬ HasSpace s len k := by
      intro k hk hk'
      have := List.find?_eq_none.1 hnone k (List.mem_range'_1.2 ⟨hk, hk'⟩)
      simpa using this
    rw [show 2 * c.blkNums = (c.blkNums - (b + 1)) + (c.blkNums + b + 1) by omega,
      kvCalcScan_skip _ (by omega) (.inl (Nat.lt_succ_self b)) hskip,
      show b + 1 + (c.blkNums - (b + 1)) = c.blkNums by omega,
      kvCalcScan_wrap hb.ne']
    rcases Nat.eq_zero_or_pos j with rfl | hpos
    · rw [if_pos (of_decide_eq_true hspace)]
    · rw [if_neg (of_decide_eq_false (hbefore 0 (le_refl 0) hpos))]
      exact kvCalcScan_upTo hpos (by omega) (.inr (by omega))
        (fun k hk hk' => of_decide_eq_false (hbefore k (Nat.zero_le k) hk')) (of_decide_eq_true hspace)
        (by omega)

/-- Whatever the search returns. Behind the partition it does not come back. -/
theorem kvCalcScan_sound {r : ℕ × KvMgr} (hn : 0 < c.blkNums)
    (h : kvCalcScan c s len b fuel i = some r) :
    r = (0, kvTriggerGc s) ∨
      ∃ j, HasSpace s len j ∧ r = kvTakeBlk c s j ∧ (i ≤ c.blkNums ↔ j < c.blkNums) := by
  induction fuel generalizing i with
  | zero => cases h
  | succ fuel ih =>
    by_cases hib : i = b
    · rw [kvCalcScan, if_pos hib] at h
      exact .inl (Option.some.inj h).symm
    by_cases hi : i = c.blkNums
    · have hzero : HasSpace s len 0 ∧ r = kvTakeBlk c s 0 ∨ kvCalcScan c s len b fuel 1 = some r := by
        rw [hi, kvCalcScan_wrap (hi ▸ hib)] at h
        split at h
        case isTrue hspace => exact .inl ⟨hspace, (Option.some.inj h).symm⟩
        case isFalse => exact .inr h
      rcases hzero with ⟨hspace, hr⟩ | hrest
      · exact .inr ⟨0, hspace, hr, by omega⟩
      · rcases ih hrest with hr | ⟨j, hspace, hr, hj⟩
        · exact .inl hr
        · exact .inr ⟨j, hspace, hr, by omega⟩
    · by_cases hspace : HasSpace s len i
      · rw [kvCalcScan_found hib hi hspace] at h
        exact .inr ⟨i, hspace, (Option.some.inj h).symm, by omega⟩
      · rw [kvCalcScan_next hib hi hspace] at h
        rcases ih h with hr | ⟨j, hspace, hr, hj⟩
        · exact .inl hr
        · exact .inr ⟨j, hspace, hr, by omega⟩

/-- A clean block that is taken is used then, and one less is counted. -/
theorem kvTakeBlk_of_clean (h : (s.blockInfo i).state = blkStateClean) :
    (kvTakeBlk c s i).2.cleanBlkNums = s.cleanBlkNums - 1 ∧
      ∀ j, ((kvTakeBlk c s i).2.blockInfo j).state =
        if j = i then blkStateUsed else (s.blockInfo j).state := by
  unfold kvTakeBlk
  dsimp only
  rw [if_pos h]
  exact ⟨rfl, fun j => setState_state _ i j _⟩

/-- A block that was not clean is taken without a change of the count. -/
theorem kvTakeBlk_of_not_clean (h : (s.blockInfo i).state ≠ blkStateClean) :
    OnlyDirtied s (kvTakeBlk c s i).2 := by
  unfold kvTakeBlk
  dsimp only
  rw [if_neg h]
  exact onlyDirtied_of_eq rfl fun _ => rfl

/-- Where the search moves on to. -/
theorem kvCalcPosition_nextBlk (h : nextBlk c s len = some j) :
    kvCalcPosition c s len = some (kvTakeBlk c s j) ∧ j < c.blkNums := by
  unfold nextBlk at h
  dsimp only at h
  split at h
  case isFalse => cases h
  case isTrue hcond =>
    obtain ⟨hb, hspace, hc⟩ := hcond
    refine ⟨?_, ?_⟩
    · unfold kvCalcPosition
      dsimp only
      rw [if_neg (show ¬ len < _ from hspace), if_pos hc]
      exact kvCalcScan_searchOrder hb h
    · have hmem := List.mem_of_find?_eq_some h
      unfold searchOrder at hmem
      rw [List.mem_append, List.mem_range'_1, List.mem_range] at hmem
      omega

/-- A position that is found without moving on. -/
theorem kvCalcPosition_stay (hI : CleanCounted c s) (hn : 0 < c.blkNums)
    (hnext : nextBlk c s len = none) (h : kvCalcPosition c s len = some (p, s')) :
    OnlyDirtied s s' := by
  unfold kvCalcPosition at h
  dsimp only at h
  by_cases hspace : len < (s.blockInfo (s.writePos / c.blkSize)).space
  · rw [if_pos hspace] at h
    split at h
    all_goals
      obtain ⟨-, rfl⟩ := Prod.mk.inj (Option.some.inj h)
    · exact onlyDirtied_trigger s
    · exact .refl s
  · rw [if_neg hspace] at h
    by_cases hc : kvGcReserved + 1 < c.blkNums
    · rw [if_pos hc] at h
      rcases kvCalcScan_sound hn h with hr | ⟨j, hj, hr, hij⟩
      · obtain ⟨-, rfl⟩ := Prod.mk.inj hr
        exact onlyDirtied_trigger s
      · obtain rfl : s' = (kvTakeBlk c s j).2 := congrArg Prod.snd hr
        apply kvTakeBlk_of_not_clean
        by_cases hb : s.writePos / c.blkSize < c.blkNums
        · -- the search would have gone there
          exfalso
          have hjn : j < c.blkNums := hij.1 hb
          unfold nextBlk at hnext
          dsimp only at hnext
          rw [if_pos ⟨hb, hspace, hc⟩] at hnext
          have hjb : j ≠ s.writePos / c.blkSize := fun heq => hspace (heq ▸ hj)
          have hmem : j ∈ searchOrder c (s.writePos / c.blkSize) := by
            unfold searchOrder
            rw [List.mem_append, List.mem_range'_1, List.mem_range]
            omega
          exact List.find?_eq_none.1 hnext j hmem (decide_eq_true hj)
        · rw [hI.outside j (by omega)]
          decide
    · rw [if_neg hc] at h
      obtain ⟨-, rfl⟩ := Prod.mk.inj (Option.some.inj h)
      exact onlyDirtied_trigger s

end Search

/-! ## A set -/

/-- The item makes `kv_calc_position` take the last block of the reserve. -/
def TakesReserve (c : KvConf) (s : KvMgr) (len : ℕ) : Prop :=
  s.cleanBlkNums ≤ kvGcReserved ∧
    ∃ i, nextBlk c s len = some i ∧ (s.blockInfo i).state = blkStateClean

/-- The old item of a set, and the state it is looked up in. SRCLINE: kvmgr.c:968-980 -/
def kvSetLookup (c : KvConf) (s : KvMgr) (key : List UInt8) : Option KvItem × KvMgr :=
  kvItemGet c (if s.gcTrigger then { s with gcWaiter := (s.gcWaiter + 1) % 256 } else s) key

/-- The old item has the value that is to be set. -/
def HasVal (item : KvItem) (val : List UInt8) : Prop :=
  item.hdr.valLen = val.length ∧ item.store.drop item.hdr.keyLen = val

/-- The set gets as far as storing an item. -/
def SetStores (c : KvConf) (s : KvMgr) (key val : List UInt8) : Prop :=
  ¬ (val.length = 0 ∨ itemMaxKeyLen < key.length ∨ itemMaxValLen < val.length) ∧
    ∀ item, (kvSetLookup c s key).1 = some item → ¬ HasVal item val

/-- **The condition**: the call is a set that stores an item, and the first block with space for it, behind
the one that is written to, is the last clean one. -/
def LosesReserve (c : KvConf) (s : KvMgr) : KvOp → Prop
  | .set key val =>
    SetStores c s key val ∧
      TakesReserve c (kvSetLookup c s key).2 (kvAlign (itemHdrSize c + key.length + val.length))
  | _ => False

section Sets

variable {c : KvConf} {s s' : KvMgr} {len i j origin : ℕ} {key val : List UInt8} {res : KvRes}

/-- A block of the reserve is taken. -/
theorem kvTakeBlk_counted (hI : CleanCounted c s) (hi : i < c.blkNums)
    (hst : (s.blockInfo i).state = blkStateClean) : CleanCounted c (kvTakeBlk c s i).2 := by
  obtain ⟨hn, hs⟩ := kvTakeBlk_of_clean (c := c) hst
  refine hI.take hi hst ?_ (fun j hj => by rw [hs, if_neg hj]) hn
  rw [hs, if_pos rfl]
  decide

/-- What a store does to the clean blocks. -/
theorem kvItemStore_cases (hI : CleanCounted c s) (hn : 0 < c.blkNums)
    (h : kvItemStore c s key val origin = some (res, s')) :
    let len := kvAlign (itemHdrSize c + key.length + val.length)
    OnlyDirtied s s' ∧ (∀ i, nextBlk c s len = some i → (s.blockInfo i).state ≠ blkStateClean) ∨
      ∃ i < c.blkNums, nextBlk c s len = some i ∧ (s.blockInfo i).state = blkStateClean ∧
        OnlyDirtied (kvTakeBlk c s i).2 s' := by
  intro len
  unfold kvItemStore at h
  dsimp only at h
  cases hp : kvCalcPosition c s len with
  | none => simp [len] at hp; simp [hp] at h
  | some r =>
  obtain ⟨p, t⟩ := r
  have hts : OnlyDirtied t s' := by
    simp only [len] at hp
    simp only [hp] at h
    split at h
    all_goals
      obtain ⟨-, rfl⟩ := Prod.mk.inj (Option.some.inj h)
    · have hwrite : OnlyDirtied t
          { kvOsPartitionWrite t p (kvStoreBytes c key val origin) with writePos := p + len } :=
        onlyDirtied_of_eq rfl fun _ => rfl
      exact hwrite.trans (onlyDirtied_setSpace _ _ _)
    · exact .refl t
  cases hnext : nextBlk c s len with
  | none => exact .inl ⟨(kvCalcPosition_stay hI hn hnext hp).trans hts, nofun⟩
  | some i =>
    obtain ⟨htake, hi⟩ := kvCalcPosition_nextBlk hnext
    obtain rfl : t = (kvTakeBlk c s i).2 := by
      rw [htake] at hp
      exact (congrArg Prod.snd (Option.some.inj hp)).symm
    by_cases hst : (s.blockInfo i).state = blkStateClean
    · exact .inr ⟨i, hi, rfl, hst, hts⟩
    · refine .inl ⟨(kvTakeBlk_of_not_clean hst).trans hts, ?_⟩
      rintro _ ⟨⟩
      exact hst

/-- A store whose search moves on returns. -/
theorem kvItemStore_nextBlk
    (h : nextBlk c s (kvAlign (itemHdrSize c + key.length + val.length)) = some i) (origin : ℕ) :
    ∃ r, kvItemStore c s key val origin = some r := by
  unfold kvItemStore
  simp only [(kvCalcPosition_nextBlk h).1]
  split
  · exact ⟨_, rfl⟩
  · exact ⟨_, rfl⟩

/-- The search of `aos_kv_set` for the key does no more than mark blocks as dirty. -/
theorem onlyDirtied_setLookup (c : KvConf) (s : KvMgr) (key : List UInt8) :
    OnlyDirtied s (kvSetLookup c s key).2 := by
  unfold kvSetLookup
  split
  · have hwait : OnlyDirtied s { s with gcWaiter := (s.gcWaiter + 1) % 256 } :=
      onlyDirtied_of_eq rfl fun _ => rfl
    exact hwait.trans (onlyDirtied_get _ key)
  · exact onlyDirtied_get s key

/-- `aos_kv_set` checks its parameters, looks the key up and stores the item. -/
theorem aosKvSet_eq (c : KvConf) (s : KvMgr) (key val : List UInt8) : aosKvSet c s key val =
    if val.length = 0 ∨ itemMaxKeyLen < key.length ∨ itemMaxValLen < val.length then
      some (.invalidParam, s)
    else
      match kvSetLookup c s key with
      | (some item, s) => kvItemUpdate c s item key val
      | (none, s) => kvItemStore c s key val 0 := rfl

/-- A set that does not store returns. -/
theorem aosKvSet_idle (h : ¬ SetStores c s key val) :
    ∃ r, aosKvSet c s key val = some r ∧ OnlyDirtied s r.2 := by
  rw [aosKvSet_eq]
  unfold SetStores at h
  split
  case isTrue => exact ⟨_, rfl, .refl s⟩
  case isFalse hparam =>
    have hlookup := onlyDirtied_setLookup c s key
    simp only [hparam, not_false_eq_true, true_and, not_forall, not_not] at h
    obtain ⟨item, hitem, hval⟩ := h
    cases hr : kvSetLookup c s key with
    | mk found t =>
    rw [hr] at hitem hlookup
    obtain rfl : found = some item := hitem
    refine ⟨(.ok, t), ?_, hlookup⟩
    unfold HasVal at hval
    simp only [kvItemUpdate, if_pos hval]

/-- One that stores returns as the store does; a deletion may follow. -/
theorem aosKvSet_stores (h : SetStores c s key val) :
    ∃ (origin : ℕ) (f : KvRes × KvMgr → KvRes × KvMgr), (∀ r, OnlyDirtied r.2 (f r).2) ∧
      aosKvSet c s key val = (kvItemStore c (kvSetLookup c s key).2 key val origin).map f := by
  obtain ⟨hparam, hval⟩ := h
  rw [aosKvSet_eq, if_neg hparam]
  cases hr : kvSetLookup c s key with
  | mk found t =>
  rw [hr] at hval
  cases found with
  | none => exact ⟨0, id, fun r => .refl r.2, by simp⟩
  | some item =>
    have hne : ¬ (item.hdr.valLen = val.length ∧ item.store.drop item.hdr.keyLen = val) :=
      hval item rfl
    refine ⟨item.pos, fun r => if r.1 = .ok then (.ok, kvItemDel c r.2 item .delete) else r, ?_, ?_⟩
    · intro r
      dsimp only
      split
      · exact onlyDirtied_del c r.2 item .delete
      · exact .refl r.2
    · simp only [kvItemUpdate, if_neg hne]
      cases kvItemStore c t key val item.pos with
      | none => rfl
      | some r =>
        obtain ⟨res, t'⟩ := r
        cases res <;> rfl

/-- **a set and the reserve.** -/
theorem CleanCounted.set (hI : CleanCounted c s) (hn : 0 < c.blkNums)
    (h : kvStep c s (.set key val) = some s') : CleanCounted c s' ∧
      (¬ LosesReserve c s (.set key val) → kvGcReserved ≤ s.cleanBlkNums →
        kvGcReserved ≤ s'.cleanBlkNums) ∧
      (LosesReserve c s (.set key val) → s'.cleanBlkNums < kvGcReserved) := by
  change (aosKvSet c s key val).map Prod.snd = some s' at h
  by_cases hstores : SetStores c s key val
  · have hlookup := onlyDirtied_setLookup c s key
    have hI' := hI.onlyDirtied hlookup
    obtain ⟨origin, f, hf, hset⟩ := aosKvSet_stores hstores
    rw [hset, Option.map_map, Option.map_eq_some_iff] at h
    obtain ⟨⟨res, t⟩, hstore, rfl⟩ := h
    have hft := hf (res, t)
    rcases kvItemStore_cases hI' hn hstore with ⟨hd, hnot⟩ | ⟨i, hi, hnext, hst, hd⟩
    · have hall := hd.trans hft
      refine ⟨hI'.onlyDirtied hall, fun _ hle => ?_, ?_⟩
      · rw [Function.comp_apply, (hlookup.trans hall).nums]
        exact hle
      · rintro ⟨-, -, i, hnext, hst⟩
        exact absurd hst (hnot i hnext)
    · have hall := hd.trans hft
      have hnums := hall.nums.trans (kvTakeBlk_of_clean (c := c) hst).1
      refine ⟨(kvTakeBlk_counted hI' hi hst).onlyDirtied hall, fun hkeeps _ => ?_, ?_⟩
      · have hmore : kvGcReserved < (kvSetLookup c s key).2.cleanBlkNums := by
          by_contra hle
          exact hkeeps ⟨hstores, not_lt.1 hle, i, hnext, hst⟩
        rw [Function.comp_apply, hnums]
        omega
      · rintro ⟨-, hle, -⟩
        have hpos : 0 < (kvSetLookup c s key).2.cleanBlkNums := by
          rw [hI'.nums]
          exact Finset.card_pos.2 ⟨i, mem_cleanBlks.2 ⟨hi, hst⟩⟩
        rw [Function.comp_apply, hnums]
        unfold kvGcReserved at *
        omega
  · obtain ⟨r, hset, hd⟩ := aosKvSet_idle hstores
    rw [hset] at h
    obtain rfl := Option.some.inj h
    refine ⟨hI.onlyDirtied hd, fun _ hle => ?_, fun hloses => absurd hloses.1 hstores⟩
    rw [hd.nums]
    exact hle

/-- A set that takes the last block of the reserve returns. -/
theorem set_returns (h : LosesReserve c s (.set key val)) :
    ∃ s', kvStep c s (.set key val) = some s' := by
  obtain ⟨hstores, -, i, hnext, -⟩ := h
  obtain ⟨origin, f, -, hset⟩ := aosKvSet_stores hstores
  obtain ⟨r, hstore⟩ := kvItemStore_nextBlk hnext origin
  refine ⟨(f r).2, ?_⟩
  change (aosKvSet c s key val).map Prod.snd = _
  rw [hset, hstore]
  rfl

end Sets

/-! ## A collection -/

section Collection

variable {c : KvConf} {s s' : KvMgr} {gcIdx origin fuel i : ℕ}

/-- The collection of block `i`. SRCLINE: kvmgr.c:830-846 -/
def kvGcCollect (c : KvConf) (gcIdx : ℕ) (s : KvMgr) (i : ℕ) : KvMgr :=
  let s := kvBlockFormat c (kvItemTraverse c (itemGcCb c) s i).2 i
  let s := (kvStateSet s (s.writePos / c.blkSize * c.blkSize) blkStateUsed).setState gcIdx blkStateUsed
  { s with cleanBlkNums := s.cleanBlkNums - 1 }

/-- What is collected is a dirty block. -/
theorem kvGcLoop_some (h : kvGcLoop c gcIdx origin fuel i s = some s') :
    ∃ j, (s.blockInfo j).state = blkStateDirty ∧ s' = kvGcCollect c gcIdx s j := by
  induction fuel generalizing i with
  | zero => cases h
  | succ fuel ih =>
    rw [kvGcLoop] at h
    dsimp only at h
    generalize (if i = c.blkNums then 0 else i) = k at h
    by_cases hst : (s.blockInfo k).state = blkStateDirty
    · rw [if_pos hst] at h
      exact ⟨k, hst, (Option.some.inj h).symm⟩
    · rw [if_neg hst] at h
      split at h
      · cases h
      · exact ih h

/-- The clean block is used up, the dirty one is clean again. -/
theorem kvGcCollect_counted (hI : CleanCounted c s) (hgc : gcIdx ∈ cleanBlks c s)
    (hst : (s.blockInfo i).state = blkStateDirty) : CleanCounted c (kvGcCollect c gcIdx s i) ∧
      (kvGcCollect c gcIdx s i).cleanBlkNums = s.cleanBlkNums := by
  obtain ⟨hgcn, hgcst⟩ := mem_cleanBlks.1 hgc
  have ht := onlyDirtied_traverse (c := c) (.gc gcIdx) s i
  change OnlyDirtied s (kvItemTraverse c (itemGcCb c) s i).2 at ht
  unfold kvGcCollect
  generalize (kvItemTraverse c (itemGcCb c) s i).2 = t at ht ⊢
  have hIt := hI.onlyDirtied ht
  have hin : i < c.blkNums := by
    by_contra hout
    rw [hI.outside i (not_lt.1 hout)] at hst
    exact absurd hst (by decide)
  have hti : (t.blockInfo i).state ≠ blkStateClean := by
    rw [ne_eq, ht.clean_iff, hst]
    decide
  have hfmt := hIt.format hin hti
  have hne : gcIdx ≠ i := by
    rintro rfl
    rw [hst] at hgcst
    exact absurd hgcst (by decide)
  have hgct : ((kvBlockFormat c t i).blockInfo gcIdx).state = blkStateClean := by
    rw [kvBlockFormat_state, if_neg hne, ht.clean_iff, hgcst]
  refine ⟨hfmt.take hgcn hgct ?_ (fun j hj => ?_) rfl, ?_⟩
  · change (((kvStateSet _ _ _).setState gcIdx blkStateUsed).blockInfo gcIdx).state ≠ _
    rw [setState_state, if_pos rfl]
    decide
  · change (((kvStateSet _ _ _).setState gcIdx blkStateUsed).blockInfo j).state = _
    rw [setState_state, if_neg hj]
    rfl
  · change t.cleanBlkNums + 1 - 1 = _
    rw [ht.nums, Nat.add_sub_cancel]

/-- **a collection and the reserve.** -/
theorem kvGcTask_counted (hI : CleanCounted c s) :
    CleanCounted c (kvGcTask c s) ∧ (kvGcTask c s).cleanBlkNums = s.cleanBlkNums := by
  have hend : ∀ t : KvMgr, OnlyDirtied t { t with gcTrigger := false } := fun t =>
    onlyDirtied_of_eq rfl fun _ => rfl
  unfold kvGcTask
  dsimp only
  split
  · exact ⟨hI.onlyDirtied (hend s), rfl⟩
  split
  · exact ⟨hI.onlyDirtied (hend s), rfl⟩
  next gcIdx hfind =>
  split
  · next t hloop =>
    obtain ⟨j, hst, rfl⟩ := kvGcLoop_some hloop
    have hstart : OnlyDirtied s { s with writePos := gcIdx * c.blkSize + blkHdrSize } :=
      onlyDirtied_of_eq rfl fun _ => rfl
    have hgc : gcIdx ∈ cleanBlks c s := by
      have hmem := List.mem_of_find?_eq_some hfind
      exact mem_cleanBlks.2 ⟨List.mem_range.1 hmem, by simpa using List.find?_some hfind⟩
    obtain ⟨hc, hnums⟩ := kvGcCollect_counted (hI.onlyDirtied hstart)
      (hstart.cleanBlks_eq (c := c) ▸ hgc) hst
    exact ⟨hc.onlyDirtied (hend _), hnums⟩
  · exact ⟨hI.onlyDirtied (hend s), rfl⟩

/-- The calls that are no sets. -/
theorem CleanCounted.other (hI : CleanCounted c s) {op : KvOp} (hop : ∀ key val, op ≠ .set key val)
    (h : kvStep c s op = some s') : CleanCounted c s' ∧ s'.cleanBlkNums = s.cleanBlkNums := by
  have hd : ∀ {t : KvMgr}, OnlyDirtied s t → CleanCounted c t ∧ t.cleanBlkNums = s.cleanBlkNums :=
    fun hd => ⟨hI.onlyDirtied hd, hd.nums⟩
  cases op with
  | set key val => exact absurd rfl (hop key val)
  | get key bufferLen =>
    obtain rfl := Option.some.inj h
    apply hd
    have hget := onlyDirtied_get (c := c) s key
    unfold aosKvGet
    split
    · exact .refl s
    cases hr : kvItemGet c s key with
    | mk found t =>
    rw [hr] at hget
    cases found with
    | none => exact hget
    | some item =>
      dsimp only
      split
      · exact hget
      · exact hget
  | del key =>
    obtain rfl := Option.some.inj h
    apply hd
    have hget := onlyDirtied_get (c := c) s key
    unfold aosKvDel
    cases hr : kvItemGet c s key with
    | mk found t =>
    rw [hr] at hget
    cases found with
    | none => exact hget
    | some item => exact hget.trans (onlyDirtied_del c t item .delete)
  | delByPrefix keyPrefix =>
    obtain rfl := Option.some.inj h
    exact hd (onlyDirtied_foldl (.delByPrefix keyPrefix) _ s)
  | delAll exPrefix =>
    obtain rfl := Option.some.inj h
    exact hd (onlyDirtied_foldl (.delAll exPrefix) _ s)
  | gc =>
    obtain rfl := Option.some.inj h
    exact kvGcTask_counted hI

end Collection

/-! ## The start -/

section Start

variable {c : KvConf} {s s' : KvMgr} {i k : ℕ} {unclean : List ℕ}

/-- The clean blocks are those counted and those that hold items. The blocks from `k` on have
not been read. -/
structure InitCounted (c : KvConf) (k : ℕ) (s : KvMgr) (unclean : List ℕ) : Prop where
  nums : s.cleanBlkNums + unclean.length = (cleanBlks c s).card
  nodup : unclean.Nodup
  clean : ∀ i ∈ unclean, i ∈ cleanBlks c s
  rest : ∀ i, k ≤ i → (s.blockInfo i).state = 0

/-- The count is right when `kv_init` begins. -/
theorem initCounted_boot (c : KvConf) (s : KvMgr) : InitCounted c 0 s.boot [] := by
  refine ⟨?_, List.nodup_nil, nofun, fun _ _ => rfl⟩
  have hnone : cleanBlks c s.boot = ∅ := by
    ext i
    rw [mem_cleanBlks]
    simp [KvMgr.boot, blkStateClean]
  rw [hnone]
  rfl

/-- A block that is formatted at the start. -/
theorem InitCounted.format (h : InitCounted c k s unclean) (hk : k < c.blkNums) :
    InitCounted c (k + 1) (kvBlockFormat c s k) unclean := by
  have hnot : k ∉ cleanBlks c s := fun hm => by
    have hst := (mem_cleanBlks.1 hm).2
    rw [h.rest k (le_refl k)] at hst
    exact absurd hst (by decide)
  refine ⟨?_, h.nodup, fun i hi => ?_, fun i hi => ?_⟩
  · rw [cleanBlks_format hk, Finset.card_insert_of_notMem hnot, ← h.nums]
    change s.cleanBlkNums + 1 + _ = _
    omega
  · rw [cleanBlks_format hk]
    exact Finset.mem_insert_of_mem (h.clean i hi)
  · rw [kvBlockFormat_state, if_neg (by omega)]
    exact h.rest i (by omega)

/-- **one block at the start.** -/
theorem InitCounted.block (h : InitCounted c k s unclean) (hk : k < c.blkNums) :
    InitCounted c (k + 1) (kvInitBlock c s unclean k).1 (kvInitBlock c s unclean k).2 := by
  unfold kvInitBlock
  dsimp only
  split
  case isFalse => exact h.format hk
  split
  case isTrue => exact h.format hk
  generalize hst : s.flash (k * c.blkSize + 1) = st
  have ht := onlyDirtied_traverse (c := c) .recovery (s.setState k st) k
  change OnlyDirtied _ (kvItemTraverse c (itemRecoveryCb c) (s.setState k st) k).2 at ht
  generalize (kvItemTraverse c (itemRecoveryCb c) (s.setState k st) k).2 = t at ht ⊢
  have hothers : ∀ j, j ≠ k → ((s.setState k st).blockInfo j).state = (s.blockInfo j).state :=
    fun j hj => by rw [setState_state, if_neg hj]
  have hrest : ∀ i, k + 1 ≤ i → (t.blockInfo i).state = 0 := fun i hi => by
    apply ht.zero
    rw [hothers i (by omega)]
    exact h.rest i (by omega)
  have hnot : k ∉ cleanBlks c s := fun hm => by
    have hst := (mem_cleanBlks.1 hm).2
    rw [h.rest k (le_refl k)] at hst
    exact absurd hst (by decide)
  have hnums : t.cleanBlkNums = s.cleanBlkNums := ht.nums
  split
  case isTrue hclean =>
    have hcard : cleanBlks c t = insert k (cleanBlks c s) := by
      rw [ht.cleanBlks_eq]
      exact cleanBlks_insert hk (by rw [setState_state, if_pos rfl, hclean]) hothers
    have hmem : ∀ i ∈ unclean, i ∈ cleanBlks c t := fun i hi => by
      rw [hcard]
      exact Finset.mem_insert_of_mem (h.clean i hi)
    split
    · refine ⟨?_, List.nodup_cons.2 ⟨fun hm => hnot (h.clean k hm), h.nodup⟩, ?_, hrest⟩
      · rw [hcard, Finset.card_insert_of_notMem hnot, ← h.nums, hnums, List.length_cons]
        omega
      · intro i hi
        rcases List.mem_cons.1 hi with rfl | hi
        · rw [hcard]
          exact Finset.mem_insert_self i _
        · exact hmem i hi
    · refine ⟨?_, h.nodup, hmem, hrest⟩
      change t.cleanBlkNums + 1 + unclean.length = (cleanBlks c t).card
      rw [hcard, Finset.card_insert_of_notMem hnot, ← h.nums, hnums]
      omega
  case isFalse hclean =>
    have hcard : cleanBlks c t = cleanBlks c s := by
      rw [ht.cleanBlks_eq, cleanBlks_erase (by rw [setState_state, if_pos rfl]; exact hclean) hothers,
        Finset.erase_eq_of_notMem hnot]
    exact ⟨by rw [hcard, hnums, h.nums], h.nodup, fun i hi => by rw [hcard]; exact h.clean i hi, hrest⟩

/-- All blocks, by induction on those that are left. -/
theorem InitCounted.blocks (n : ℕ) (h : InitCounted c k s unclean) (hn : k + n = c.blkNums) :
    InitCounted c c.blkNums (kvInitBlocks c (List.range' k n) s unclean).1
      (kvInitBlocks c (List.range' k n) s unclean).2 := by
  induction n generalizing k s unclean with
  | zero =>
    obtain rfl : k = c.blkNums := hn
    exact h
  | succ n ih =>
    rw [List.range'_succ]
    exact ih (h.block (by omega)) (by omega)

/-- A block that holds items. -/
theorem InitCounted.resolve (h : InitCounted c c.blkNums s (i :: unclean)) :
    InitCounted c c.blkNums (kvInitUnclean c s i) unclean := by
  obtain ⟨hnot, hnodup⟩ := List.nodup_cons.1 h.nodup
  have hi := h.clean i (by simp)
  obtain ⟨hin, hist⟩ := mem_cleanBlks.1 hi
  have hnums := h.nums
  rw [List.length_cons] at hnums
  unfold kvInitUnclean
  split
  · have hothers : ∀ j, j ≠ i → (((kvStateSet s (i * c.blkSize) blkStateDirty).setState i
        blkStateDirty).blockInfo j).state = (s.blockInfo j).state := fun j hj => by
      rw [setState_state, if_neg hj]
      rfl
    have hself : (((kvStateSet s (i * c.blkSize) blkStateDirty).setState i
        blkStateDirty).blockInfo i).state ≠ blkStateClean := by
      rw [setState_state, if_pos rfl]
      decide
    have herase := cleanBlks_erase (c := c) hself hothers
    refine ⟨?_, hnodup, fun j hj => ?_, fun j hj => ?_⟩
    · rw [herase, Finset.card_erase_of_mem hi, ← hnums]
      change s.cleanBlkNums + _ = _
      omega
    · rw [herase]
      exact Finset.mem_erase.2 ⟨fun heq => hnot (heq ▸ hj), h.clean j (List.mem_cons_of_mem _ hj)⟩
    · rw [hothers j (by omega)]
      exact h.rest j hj
  · have hsame : cleanBlks c (kvBlockFormat c s i) = cleanBlks c s := by
      rw [cleanBlks_format hin, Finset.insert_eq_self.2 hi]
    refine ⟨?_, hnodup, fun j hj => ?_, fun j hj => ?_⟩
    · rw [hsame, ← hnums]
      change s.cleanBlkNums + 1 + _ = _
      omega
    · rw [hsame]
      exact h.clean j (List.mem_cons_of_mem _ hj)
    · rw [kvBlockFormat_state, if_neg (by omega)]
      exact h.rest j hj

/-- The blocks that hold items. -/
theorem InitCounted.finish (h : InitCounted c c.blkNums s unclean) :
    CleanCounted c (unclean.foldl (kvInitUnclean c) s) := by
  induction unclean generalizing s with
  | nil => exact ⟨h.nums, h.rest⟩
  | cons i unclean ih => exact ih h.resolve

/-- The last part of the start. -/
theorem kvInitWritePos_counted (hn : 2 ≤ c.blkNums) (hI : CleanCounted c s)
    (hpos : kvGcReserved ≤ s.cleanBlkNums) :
    CleanCounted c (kvInitWritePos c s) ∧ kvGcReserved ≤ (kvInitWritePos c s).cleanBlkNums := by
  unfold kvInitWritePos
  split
  case isTrue hall =>
    have hfull : cleanBlks c s = Finset.range c.blkNums :=
      Finset.eq_of_subset_of_card_le (Finset.filter_subset _ _) (by rw [← hI.nums, hall, Finset.card_range])
    have hzero : (s.blockInfo 0).state = blkStateClean := by
      have hmem : 0 ∈ cleanBlks c s := by
        rw [hfull, Finset.mem_range]
        omega
      exact (mem_cleanBlks.1 hmem).2
    refine ⟨hI.take (i := 0) (by omega) hzero ?_ (fun j hj => ?_) rfl, ?_⟩
    · change (((kvStateSet _ _ _).setState 0 blkStateUsed).blockInfo 0).state ≠ _
      rw [setState_state, if_pos rfl]
      decide
    · change (((kvStateSet _ _ _).setState 0 blkStateUsed).blockInfo j).state = _
      rw [setState_state, if_neg hj]
      rfl
    · change kvGcReserved ≤ s.cleanBlkNums - 1
      unfold kvGcReserved
      omega
  case isFalse =>
    split
    · exact ⟨hI.onlyDirtied (onlyDirtied_of_eq rfl fun _ => rfl), hpos⟩
    · exact ⟨hI, hpos⟩

/-- **The start leaves a clean block**, whatever the flash holds. -/
theorem kvInit_counted (hn : 2 ≤ c.blkNums) (h : kvInit c s.boot = some s') :
    CleanCounted c s' ∧ kvGcReserved ≤ s'.cleanBlkNums := by
  unfold kvInit at h
  split at h
  case isTrue => cases h
  case isFalse =>
    have hblocks := (initCounted_boot c s).blocks c.blkNums (Nat.zero_add _)
    rw [← List.range_eq_range'] at hblocks
    cases hr : kvInitBlocks c (List.range c.blkNums) s.boot [] with
    | mk t unclean =>
    rw [hr] at hblocks
    simp only [hr, Option.some.injEq] at h
    have hI := hblocks.finish
    generalize unclean.foldl (kvInitUnclean c) t = u at h hI
    rw [← h]
    split
    case isTrue hzero =>
      have hst : (u.blockInfo 0).state ≠ blkStateClean := fun hst => by
        have hmem : 0 ∈ cleanBlks c u := mem_cleanBlks.2 ⟨by omega, hst⟩
        have hcard := Finset.card_pos.2 ⟨0, hmem⟩
        rw [← hI.nums, hzero] at hcard
        exact absurd hcard (lt_irrefl 0)
      exact kvInitWritePos_counted hn (hI.format (by omega) hst) (Nat.le_add_left 1 _)
    case isFalse hpos =>
      exact kvInitWritePos_counted hn hI (Nat.one_le_iff_ne_zero.2 hpos)

end Start

/-- **The reserve.** In every state after `kv_init` the counter is the number of clean blocks; and no state
of a run is without the reserve exactly if no call of the run is a set that takes the last clean block. -/
theorem reserve_kept_iff (c : KvConf) (hn : 2 ≤ c.blkNums) {s₀ s : KvMgr}
    (hinit : kvInit c s₀.boot = some s) (ops : List KvOp) :
    (∀ pre t, pre <+: ops → runSteps (kvStep c) s pre = some t →
      t.cleanBlkNums = (cleanBlks c t).card) ∧
    ((∀ pre t, pre <+: ops → runSteps (kvStep c) s pre = some t → kvGcReserved ≤ t.cleanBlkNums) ↔
      StepsMeet (kvStep c) (fun t op => ¬ LosesReserve c t op) s ops) := by
  obtain ⟨hI, hpos⟩ := kvInit_counted hn hinit
  have hstep : ∀ t op t', CleanCounted c t → kvStep c t op = some t' → CleanCounted c t' := by
    intro t op t' ht hop
    cases op with
    | set key val => exact (ht.set (by omega) hop).1
    | get key bufferLen => exact (ht.other (by simp) hop).1
    | del key => exact (ht.other (by simp) hop).1
    | delByPrefix keyPrefix => exact (ht.other (by simp) hop).1
    | delAll exPrefix => exact (ht.other (by simp) hop).1
    | gc => exact (ht.other (by simp) hop).1
  refine ⟨fun pre t _ hrun => ?_, stepsMeet_iff hstep ?_ hI hpos⟩
  · have hmeet : StepsMeet (kvStep c) (fun _ _ => True) s pre :=
      stepsMeet_of_forall (fun _ _ _ => trivial) s
    exact (runSteps_inv (fun t op t' ht _ hop => hstep t op t' ht hop) hI hmeet hrun).nums
  · intro t op ht hres
    have hother : (∀ key val, op ≠ .set key val) → ¬ LosesReserve c t op →
        (¬ LosesReserve c t op ↔ ∀ t', kvStep c t op = some t' → kvGcReserved ≤ t'.cleanBlkNums) := by
      intro hop hkeeps
      refine ⟨fun _ t' hstep' => ?_, fun _ => hkeeps⟩
      rw [(ht.other hop hstep').2]
      exact hres
    cases op with
    | set key val =>
      constructor
      · intro hkeeps t' hstep'
        exact (ht.set (by omega) hstep').2.1 hkeeps hres
      · intro hall hloses
        obtain ⟨t', hstep'⟩ := set_returns hloses
        have hlt := (ht.set (by omega) hstep').2.2 hloses
        exact absurd (hall t' hstep') (not_le.2 hlt)
    | get key bufferLen => exact hother (by simp) nofun
    | del key => exact hother (by simp) nofun
    | delByPrefix keyPrefix => exact hother (by simp) nofun
    | delAll exPrefix => exact hother (by simp) nofun
    | gc => exact hother (by simp) nofun

/-! ## Three blocks -/

/-- `n` values of the greatest length, each under a key of its own length. -/
def fillOps (n : ℕ) : List KvOp :=
  (List.range n).map fun i => .set (List.replicate (116 + i) 0x61) (List.replicate 512 0)

/-- The store on an erased partition of three blocks. -/
def threeBlksStart : KvMgr := ((kvInit threeBlks erasedPartition.boot).getD erasedPartition)

/-- The store starts on an erased partition of three blocks. -/
theorem kvInit_threeBlks : kvInit threeBlks erasedPartition.boot = some threeBlksStart := by
  unfold threeBlksStart kvInit
  rw [if_neg (by decide)]
  rfl

/-- Thirteen sets of long values on three blocks: the counter is right all along, and one of the sets takes the
block that is kept for the collection. -/
theorem reserve_kept_iff_three : 2 ≤ threeBlks.blkNums ∧
    kvInit threeBlks erasedPartition.boot = some threeBlksStart ∧
    ((∀ pre t, pre <+: fillOps 13 → runSteps (kvStep threeBlks) threeBlksStart pre = some t →
      t.cleanBlkNums = (cleanBlks threeBlks t).card) ∧
    ((∀ pre t, pre <+: fillOps 13 → runSteps (kvStep threeBlks) threeBlksStart pre = some t →
      kvGcReserved ≤ t.cleanBlkNums) ↔
      StepsMeet (kvStep threeBlks) (fun t op => ¬ LosesReserve threeBlks t op) threeBlksStart
        (fillOps 13))) :=
  ⟨by decide, kvInit_threeBlks, reserve_kept_iff threeBlks (by decide) kvInit_threeBlks (fillOps 13)⟩

set_option maxRecDepth 20000 in
/-- Thirteen values fill two blocks and take the third: a collection has no block to copy into. -/
theorem reserve_lost : 2 ≤ threeBlks.blkNums ∧
    kvInit threeBlks erasedPartition.boot = some threeBlksStart ∧
    ∃ t, runSteps (kvStep threeBlks) threeBlksStart (fillOps 13) = some t ∧
      t.cleanBlkNums < kvGcReserved := by
  refine ⟨by decide, kvInit_threeBlks, ?_⟩
  have hnums : (runSteps (kvStep threeBlks) threeBlksStart (fillOps 13)).map KvMgr.cleanBlkNums =
      some 0 := by decide +kernel
  obtain ⟨t, hrun, hzero⟩ := Option.map_eq_some_iff.1 hnums
  exact ⟨t, hrun, hzero ▸ Nat.one_pos⟩

end GenieSdk.Analysis.Kv
