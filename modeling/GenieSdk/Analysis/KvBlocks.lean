import GenieSdk.Analysis.KvFlash

/-!
# The blocks and what is known of them

`LaidOut` says that every block of the partition is a row of items and that `block_info` has the states of
the first blocks, all of them except while `kv_init` runs. `Layout` adds what holds between two calls: a
clean block is empty, the space behind the items is known, and the next item goes behind the last one of a
block that is not clean. What a callback of a traversal does to the blocks is `Kept`, with every write
lawful.
-/

set_option autoImplicit false

namespace GenieSdk.Analysis.Kv

open GenieSdk.Lib
open GenieSdk.Model

/-- The block is erased, and so it has no items. -/
structure Blank (c : KvConf) (f : Mem) (i : ℕ) (ns : List ℕ) : Prop where
  nil : ns = []
  erased : ∀ a, i * c.blkSize ≤ a → a < blkStop c i → f a = 0xFF

/-- What the flash holds: in each block a row of items, or nothing but erased bytes. -/
def FlashLaid (c : KvConf) (ns : ℕ → List ℕ) (f : Mem) : Prop :=
  ∀ i < c.blkNums, BlockOn c f i (ns i) ∨ Blank c f i (ns i)

/-- The blocks are rows of items of the sizes `ns`, or erased while their states are not known; the states of
the first `k` are known. -/
structure LaidOut (c : KvConf) (k : ℕ) (ns : ℕ → List ℕ) (s : KvMgr) : Prop where
  le : k ≤ c.blkNums
  blocks : ∀ i < c.blkNums, BlockOn c s.flash i (ns i) ∨ k ≤ i ∧ Blank c s.flash i (ns i)
  mark : ∀ i < k, (s.blockInfo i).state = s.flash (i * c.blkSize + 1)
  blank : ∀ i, k ≤ i → (s.blockInfo i).state = 0

/-- The space behind the items of the first `k` blocks is known. -/
def Spaced (c : KvConf) (k : ℕ) (ns : ℕ → List ℕ) (s : KvMgr) : Prop :=
  ∀ i < k, (s.blockInfo i).space = blkStop c i - (blkFirst c i + (ns i).sum)

/-- Between two calls. -/
structure Layout (c : KvConf) (ns : ℕ → List ℕ) (s : KvMgr) : Prop where
  laid : LaidOut c c.blkNums ns s
  clean : ∀ i < c.blkNums, (s.blockInfo i).state = blkStateClean → ns i = []
  space : Spaced c c.blkNums ns s
  write : ∃ w < c.blkNums, (s.blockInfo w).state ≠ blkStateClean ∧
    s.writePos = blkFirst c w + (ns w).sum

/-- The items of all blocks are as they were. -/
def ItemsSame (c : KvConf) (f f' : Mem) : Prop :=
  ∀ i < c.blkNums, ∀ a, blkFirst c i ≤ a → a < blkStop c i → f' a = f a

/-- The states of the blocks are as they were, but a used block may be dirty and an erased one clean. -/
def MarksKept (c : KvConf) (f f' : Mem) : Prop :=
  ∀ i < c.blkNums, f' (i * c.blkSize + 1) = f (i * c.blkSize + 1) ∨
    f (i * c.blkSize + 1) = blkStateUsed ∧ f' (i * c.blkSize + 1) = blkStateDirty ∨
    f (i * c.blkSize + 1) = 0xFF ∧ f' (i * c.blkSize + 1) = blkStateClean

/-- What is kept while items are deleted. -/
structure Kept (c : KvConf) (s s' : KvMgr) : Prop where
  obeys : Obeys c s s'
  dirtied : OnlyDirtied s s'
  space : ∀ i, (s'.blockInfo i).space = (s.blockInfo i).space
  writePos : s'.writePos = s.writePos
  trigger : s'.gcTrigger = s.gcTrigger
  marks : MarksKept c s.flash s'.flash

section Frames

variable {c : KvConf} {k i j off n : ℕ} {ns : ℕ → List ℕ} {s s' s'' : KvMgr} {st : UInt8}

/-- Nothing is written. -/
theorem MarksKept.refl (c : KvConf) (f : Mem) : MarksKept c f f := fun _ _ => .inl rfl

/-- Two steps that keep the marks of the blocks. -/
theorem MarksKept.trans {f f' f'' : Mem} (h : MarksKept c f f') (h' : MarksKept c f' f'') :
    MarksKept c f f'' := by
  intro i hi
  rcases h' i hi with heq | ⟨hu, hd⟩ | ⟨he, hc⟩
  · rw [heq]
    exact h i hi
  · rcases h i hi with heq | ⟨-, hd'⟩ | ⟨-, hc'⟩
    · exact .inr (.inl ⟨heq ▸ hu, hd⟩)
    · exact absurd (hu.symm.trans hd') (by decide)
    · exact absurd (hu.symm.trans hc') (by decide)
  · rcases h i hi with heq | ⟨-, hd'⟩ | ⟨-, hc'⟩
    · exact .inr (.inr ⟨heq ▸ he, hc⟩)
    · exact absurd (he.symm.trans hd') (by decide)
    · exact absurd (he.symm.trans hc') (by decide)

/-- A block with a state that is known is clean if it was. -/
theorem MarksKept.clean_iff {f f' : Mem} (h : MarksKept c f f') (hi : i < c.blkNums)
    (hst : f (i * c.blkSize + 1) ≠ 0xFF) :
    f' (i * c.blkSize + 1) = blkStateClean ↔ f (i * c.blkSize + 1) = blkStateClean := by
  rcases h i hi with heq | ⟨hu, hd⟩ | ⟨he, -⟩
  · rw [heq]
  · rw [hu, hd]
    decide
  · exact absurd he hst

/-- Nothing is done. -/
theorem Kept.refl (c : KvConf) (s : KvMgr) : Kept c s s :=
  ⟨.refl c s, .refl s, fun _ => rfl, rfl, rfl, .refl c _⟩

/-- Two steps that keep what the store knows. -/
theorem Kept.trans (h : Kept c s s') (h' : Kept c s' s'') : Kept c s s'' :=
  ⟨h.obeys.trans h'.obeys, h.dirtied.trans h'.dirtied, fun i => (h'.space i).trans (h.space i),
    h'.writePos.trans h.writePos, h'.trigger.trans h.trigger, h.marks.trans h'.marks⟩

/-- One byte is written. -/
theorem writeBytes_singleton (f : Mem) (p a : ℕ) (b : UInt8) :
    writeBytes f p [b] a = if a = p then b else f a := by
  by_cases h : a = p
  · rw [if_pos h, h, writeBytes_inside _ _ _ _ (le_refl p) (by simp)]
    simp
  · rw [if_neg h, writeBytes_outside _ _ _ _ (by simp; omega)]

/-- Two states of blocks lie apart. -/
theorem mark_ne (h : i ≠ j) : i * c.blkSize + 1 ≠ j * c.blkSize + 1 := by
  have hpos := blkSize_ge c
  intro heq
  exact h (Nat.eq_of_mul_eq_mul_right (by omega) (Nat.add_right_cancel heq))

/-- Setting the state of a block leaves its space. -/
theorem setState_space (s : KvMgr) (i j : ℕ) (st : UInt8) :
    ((s.setState i st).blockInfo j).space = (s.blockInfo j).space := by
  unfold KvMgr.setState KvMgr.setInfo
  dsimp only
  split
  case isTrue h => rw [h]
  case isFalse => rfl

/-- Setting the space of a block leaves its state. -/
theorem setSpace_state (s : KvMgr) (i j space : ℕ) :
    ((s.setSpace i space).blockInfo j).state = (s.blockInfo j).state := by
  unfold KvMgr.setSpace KvMgr.setInfo
  dsimp only
  split
  case isTrue h => rw [h]
  case isFalse => rfl

/-- Setting the space of one block leaves that of the others. -/
theorem setSpace_space (s : KvMgr) (i j space : ℕ) :
    ((s.setSpace i space).blockInfo j).space = if j = i then space else (s.blockInfo j).space := by
  unfold KvMgr.setSpace KvMgr.setInfo
  dsimp only
  split <;> rfl

/-- Each block is laid out as the store says. -/
theorem LaidOut.block (h : LaidOut c k ns s) (i : ℕ) (hi : i < k) : BlockOn c s.flash i (ns i) :=
  (h.blocks i (lt_of_lt_of_le hi h.le)).resolve_right fun hblank => by omega

/-- So the flash is laid out. -/
theorem LaidOut.flashLaid (h : LaidOut c k ns s) : FlashLaid c ns s.flash :=
  fun i hi => (h.blocks i hi).imp_right And.right

/-- The blocks in another state of the manager. -/
theorem LaidOut.of_eq (h : LaidOut c k ns s) (hf : s'.flash = s.flash)
    (hs : ∀ j, (s'.blockInfo j).state = (s.blockInfo j).state) : LaidOut c k ns s' := by
  refine ⟨h.le, fun j hj => ?_, fun j hj => ?_, fun j hj => ?_⟩
  · rw [hf]
    exact h.blocks j hj
  · rw [hs, hf]
    exact h.mark j hj
  · rw [hs]
    exact h.blank j hj

/-- The state that a block is given. -/
def kvMarkBlk (c : KvConf) (s : KvMgr) (i : ℕ) (st : UInt8) : KvMgr :=
  (kvStateSet s (i * c.blkSize) st).setState i st

/-- Marking a block writes the one byte of its state. -/
theorem kvMarkBlk_flash (a : ℕ) : (kvMarkBlk c s i st).flash a =
    if a = i * c.blkSize + 1 then st else s.flash a := writeBytes_singleton _ _ _ _

/-- A block is marked as used or dirty. -/
theorem BlkMove.target {st' : UInt8} (h : BlkMove st st') : st' = blkStateUsed ∨ st' = blkStateDirty := by
  cases h with
  | use => exact .inl rfl
  | dirty => exact .inr rfl
  | recover => exact .inr rfl

/-- A block that does not change stays blank behind its items. -/
theorem Blank.congr {f f' : Mem} {ms : List ℕ} (h : Blank c f i ms)
    (heq : ∀ a, i * c.blkSize ≤ a → a < blkStop c i → f' a = f a) : Blank c f' i ms := by
  refine ⟨h.nil, fun a ha hb => ?_⟩
  rw [heq a ha hb]
  exact h.erased a ha hb

/-- The state of a block lies in no other block. -/
theorem mark_outside (hij : i ≠ j) {a : ℕ} (ha : j * c.blkSize ≤ a) (hb : a < blkStop c j) :
    a ≠ i * c.blkSize + 1 := by
  rintro rfl
  have hapart := blkStop_le hij (c := c)
  have hsize := blkSize_ge c
  unfold blkStop at *
  omega

/-- The state of a block is no part of another, nor of its items. -/
theorem BlockOn.marked {f : Mem} {ms : List ℕ} (h : BlockOn c f j ms) {f' : Mem}
    (hf : ∀ a, f' a = if a = i * c.blkSize + 1 then st else f a)
    (hst : st = blkStateUsed ∨ st = blkStateDirty) : BlockOn c f' j ms := by
  have h4i : 4 ∣ i * c.blkSize := (blkSize_dvd c).mul_left i
  by_cases hij : i = j
  · subst hij
    have hfirst : i * c.blkSize + 4 = blkFirst c i := rfl
    refine ⟨?_, ?_, h.laid.congr fun a ha _ => ?_, h.fits, fun a ha hb => ?_⟩
    · rw [hf, if_neg (by omega), h.magic]
    · rw [hf, if_pos rfl]
      rcases hst with rfl | rfl
      · exact .inl rfl
      · exact .inr (.inr rfl)
    · rw [hf, if_neg (by omega)]
    · rw [hf, if_neg (by omega)]
      exact h.rest a ha hb
  · refine h.congr fun a ha hb => ?_
    rw [hf, if_neg (mark_outside hij ha hb)]

/-- **A block is given another state.** -/
theorem LaidOut.marked (h : LaidOut c k ns s) (st : UInt8) (hi : i < k) (hmove : BlkMove (s.blockInfo i).state st) :
    LaidOut c k ns (kvMarkBlk c s i st) ∧ Obeys c s (kvMarkBlk c s i st) := by
  have hin := lt_of_lt_of_le hi h.le
  have hflash : ∀ a, (kvMarkBlk c s i st).flash a = if a = i * c.blkSize + 1 then st else s.flash a :=
    fun a => kvMarkBlk_flash a
  have hstate : ∀ j, ((kvMarkBlk c s i st).blockInfo j).state =
      if j = i then st else (s.blockInfo j).state := fun j => setState_state _ i j st
  refine ⟨⟨h.le, fun j hj => ?_, fun j hj => ?_, fun j hj => ?_⟩, ?_⟩
  · rcases h.blocks j hj with hb | ⟨hkj, hb⟩
    · exact .inl (hb.marked hflash hmove.target)
    · refine .inr ⟨hkj, hb.congr fun a ha hb' => ?_⟩
      rw [hflash, if_neg (mark_outside (by omega) ha hb')]
  · rw [hstate, hflash]
    by_cases hji : j = i
    · rw [if_pos hji, if_pos (by rw [hji])]
    · rw [if_neg hji, if_neg (mark_ne hji)]
      exact h.mark j hj
  · rw [hstate, if_neg (by omega)]
    exact h.blank j hj
  · rw [h.mark i hi] at hmove
    exact obeys_doFlash (.blkState hin (h.block i hi).magic hmove) rfl rfl

/-- A used block becomes dirty. -/
theorem LaidOut.dirtied (h : LaidOut c k ns s) (hi : i < k) (hst : (s.blockInfo i).state = blkStateUsed) :
    LaidOut c k ns (kvMarkBlk c s i blkStateDirty) ∧ Kept c s (kvMarkBlk c s i blkStateDirty) := by
  obtain ⟨hl, ho⟩ := h.marked blkStateDirty hi (hst ▸ .dirty)
  refine ⟨hl, ho, onlyDirtied_setState hst _, fun j => setState_space _ i j _, rfl, rfl, fun j _ => ?_⟩
  by_cases hji : j = i
  · subst hji
    rw [← h.mark j hi, hst, kvMarkBlk_flash, if_pos rfl]
    exact .inr (.inl ⟨rfl, rfl⟩)
  · rw [kvMarkBlk_flash, if_neg (mark_ne hji)]
    exact .inl rfl

/-- A block with a known state that is not 0. -/
theorem LaidOut.known (h : LaidOut c k ns s) (hst : (s.blockInfo i).state ≠ 0) : i < k := by
  by_contra hout
  exact hst (h.blank i (not_lt.1 hout))

/-- The layout stays when a block is marked as dirty. -/
theorem LaidOut.markDirty (h : LaidOut c k ns s) (i : ℕ) :
    LaidOut c k ns (kvMarkDirty c s i) ∧ Kept c s (kvMarkDirty c s i) := by
  unfold kvMarkDirty
  split
  case isTrue hst => exact h.dirtied (h.known (by rw [hst]; decide)) hst
  case isFalse => exact ⟨h, .refl c s⟩

/-- Where something looks like an item, a block is that is no erased one. -/
theorem LaidOut.blockAt (h : LaidOut c k ns s) (hoff : off < c.blkNums * c.blkSize)
    (hmagic : s.flash off = itemMagicNum) : ∃ i < c.blkNums, BlockOn c s.flash i (ns i) ∧
      i * c.blkSize ≤ off ∧ off < blkStop c i := by
  have hsize := blkSize_ge c
  have hblk : off / c.blkSize < c.blkNums := (Nat.div_lt_iff_lt_mul (by omega)).2 hoff
  have hlo : off / c.blkSize * c.blkSize ≤ off := Nat.div_mul_le_self off _
  have hhi : off < blkStop c (off / c.blkSize) := by
    unfold blkStop
    have := Nat.lt_div_mul_add (a := off) (b := c.blkSize) (by omega)
    omega
  rcases h.blocks _ hblk with hb | ⟨-, hb⟩
  · exact ⟨_, hblk, hb, hlo, hhi⟩
  · exact absurd ((hb.erased off hlo hhi).symm.trans hmagic) (by decide)

/-- No block begins there. -/
theorem LaidOut.ne_blk (h : LaidOut c k ns s) (hmagic : s.flash off = itemMagicNum) (hj : j < c.blkNums) :
    off ≠ j * c.blkSize := by
  have hsize := blkSize_ge c
  rintro rfl
  rcases h.blocks j hj with hb | ⟨-, hb⟩
  · exact absurd (hb.magic.symm.trans hmagic) (by decide)
  · exact absurd ((hb.erased _ (le_refl _) (by unfold blkStop; omega)).symm.trans hmagic) (by decide)

/-- An item whose state is set to deleted is killed. -/
theorem killed_stateSet (hdvd : 4 ∣ off) (hmagic : s.flash off = itemMagicNum)
    (hnormal : s.flash (off + 1) = itemStateNormal) :
    Killed s.flash (kvStateSet s off itemStateDelete).flash off := by
  have hflash : ∀ a, (kvStateSet s off itemStateDelete).flash a =
      if a = off + 1 then itemStateDelete else s.flash a := fun a => writeBytes_singleton _ _ _ _
  refine ⟨hdvd, hmagic, hnormal, ?_, fun a ha => ?_⟩
  · rw [hflash, if_pos rfl]
  · rw [hflash, if_neg ha]

/-- The byte of an item's state. -/
theorem LaidOut.cleared (h : LaidOut c k ns s) (hoff : off < c.blkNums * c.blkSize) (hdvd : 4 ∣ off)
    (hmagic : s.flash off = itemMagicNum) (hnormal : s.flash (off + 1) = itemStateNormal) :
    LaidOut c k ns (kvStateSet s off itemStateDelete) ∧ Kept c s (kvStateSet s off itemStateDelete) := by
  have hflash : ∀ a, (kvStateSet s off itemStateDelete).flash a =
      if a = off + 1 then itemStateDelete else s.flash a := fun a => writeBytes_singleton _ _ _ _
  have hkill := killed_stateSet hdvd hmagic hnormal
  obtain ⟨i, hi, hblk, hlo, hhi⟩ := h.blockAt hoff hmagic
  obtain ⟨hfirst, hstop⟩ := hblk.kill_in hdvd hmagic hlo hhi
  have hmark : ∀ j < c.blkNums, (kvStateSet s off itemStateDelete).flash (j * c.blkSize + 1) =
      s.flash (j * c.blkSize + 1) := by
    intro j hj
    have hne := h.ne_blk hmagic hj
    rw [hflash, if_neg (by omega)]
  refine ⟨⟨h.le, fun j hj => ?_, fun j hj => ?_, h.blank⟩, ⟨?_, ?_, fun _ => rfl, rfl, rfl, fun j hj => .inl (hmark j hj)⟩⟩
  · rcases h.blocks j hj with hb | ⟨hkj, hb⟩
    · exact .inl (hb.kill hkill)
    · refine .inr ⟨hkj, hb.congr fun a ha hb' => ?_⟩
      rw [hflash, if_neg]
      rintro rfl
      exact absurd ((hb.erased _ ha hb').symm.trans hnormal) (by decide)
  · rw [hmark j (lt_of_lt_of_le hj h.le)]
    exact h.mark j hj
  · exact obeys_doFlash (.itemState hi hfirst hstop hmagic hnormal) rfl rfl
  · exact onlyDirtied_of_eq rfl fun _ => rfl

/-- **An item is deleted**, or what looks like one. -/
theorem LaidOut.kill (h : LaidOut c k ns s) (hoff : off < c.blkNums * c.blkSize) (hdvd : 4 ∣ off)
    (hmagic : s.flash off = itemMagicNum) (hnormal : s.flash (off + 1) = itemStateNormal) :
    LaidOut c k ns (kvItemKill c s off) ∧ Kept c s (kvItemKill c s off) := by
  obtain ⟨hl, hk⟩ := h.cleared hoff hdvd hmagic hnormal
  unfold kvItemKill
  dsimp only
  split
  case isTrue hst =>
    obtain ⟨hl', hk'⟩ := hl.dirtied (hl.known (by rw [hst]; decide)) hst
    exact ⟨hl', hk.trans hk'⟩
  case isFalse => exact ⟨hl, hk⟩

end Frames

/-! ## The items stay as they are -/

section Same

variable {c : KvConf} {f f' f'' : Mem}

/-- An item is the same as itself. -/
theorem ItemsSame.refl (c : KvConf) (f : Mem) : ItemsSame c f f := fun _ _ _ _ _ => rfl

/-- The flash with the same items, the other way round. -/
theorem ItemsSame.symm (h : ItemsSame c f f') : ItemsSame c f' f := fun i hi a ha hb => (h i hi a ha hb).symm

/-- Two steps that leave the items. -/
theorem ItemsSame.trans (h : ItemsSame c f f') (h' : ItemsSame c f' f'') : ItemsSame c f f'' :=
  fun i hi a ha hb => (h' i hi a ha hb).trans (h i hi a ha hb)

/-- The state of a block is no part of an item. -/
theorem itemsSame_of_mark (h : ∀ a, f' a = f a ∨ ∃ j, a = j * c.blkSize + 1) : ItemsSame c f f' := by
  intro i _ a ha hb
  rcases h a with heq | ⟨j, rfl⟩
  · exact heq
  · exfalso
    have hsize := blkSize_ge c
    have hdiv := div_blkSize ha hb
    have hj : (j * c.blkSize + 1) / c.blkSize = j := by
      rw [Nat.mul_comm, Nat.mul_add_div (by omega), Nat.div_eq_of_lt (by omega), Nat.add_zero]
    rw [hj] at hdiv
    subst hdiv
    unfold blkFirst blkHdrSize at ha
    omega

/-- Marking a block leaves the items. -/
theorem itemsSame_markBlk (s : KvMgr) (i : ℕ) (st : UInt8) :
    ItemsSame c s.flash (kvMarkBlk c s i st).flash := by
  refine itemsSame_of_mark fun a => ?_
  rw [kvMarkBlk_flash]
  split
  case isTrue h => exact .inr ⟨i, h⟩
  case isFalse => exact .inl rfl

/-- One byte apart, a deletion leaves the items as they are. -/
theorem itemsSame_kill (c : KvConf) (s : KvMgr) (off : ℕ) :
    ItemsSame c (kvStateSet s off itemStateDelete).flash (kvItemKill c s off).flash := by
  unfold kvItemKill
  dsimp only
  split
  case isTrue => exact itemsSame_markBlk _ _ _
  case isFalse => exact .refl c _

/-- So does marking it as dirty. -/
theorem itemsSame_markDirty (s : KvMgr) (i : ℕ) : ItemsSame c s.flash (kvMarkDirty c s i).flash := by
  unfold kvMarkDirty
  split
  case isTrue => exact itemsSame_markBlk s i _
  case isFalse => exact .refl c _

end Same

/-! ## The traversals that delete -/

section Traversals

variable {c : KvConf} {k i n : ℕ} {ns : ℕ → List ℕ} {s s' : KvMgr} {done rest : List ℕ}

/-- An item of a block lies in the partition. -/
theorem LaidOut.itemAt_lt (h : LaidOut c k ns s) (hi : i < k) (hns : ns i = done ++ n :: rest) :
    blkFirst c i + done.sum < c.blkNums * c.blkSize ∧ 4 ∣ blkFirst c i + done.sum := by
  have hb := h.block i hi
  rw [hns] at hb
  have hfits := hb.fits
  rw [List.sum_append, List.sum_cons] at hfits
  have hle : blkStop c i ≤ c.blkNums * c.blkSize := by
    calc i * c.blkSize + c.blkSize = (i + 1) * c.blkSize := by ring
      _ ≤ c.blkNums * c.blkSize := Nat.mul_le_mul_right _ (lt_of_lt_of_le hi h.le)
  exact ⟨by omega, (blkFirst_dvd c i).add (laidFrom_append.1 hb.laid).1.dvd⟩

/-- A callback that deletes its item or does nothing. -/
theorem LaidOut.delete (h : LaidOut c k ns s) (hi : i < k) (hns : ns i = done ++ n :: rest)
    (hst : s.flash (blkFirst c i + done.sum + 1) = itemStateNormal) :
    LaidOut c k ns (kvItemKill c s (blkFirst c i + done.sum)) ∧
      Kept c s (kvItemKill c s (blkFirst c i + done.sum)) := by
  obtain ⟨hlt, hdvd⟩ := h.itemAt_lt hi hns
  have hb := h.block i hi
  rw [hns] at hb
  exact h.kill hlt hdvd hb.hdrAt.magic hst

/-- The callbacks that are no collection. -/
def KvCallback.Deletes : KvCallback → Prop
  | .gc _ => False
  | _ => True

/-- **The callbacks** leave the layout as it is. -/
theorem LaidOut.callback (h : LaidOut c k ns s) (hi : i < k) (hns : ns i = done ++ n :: rest)
    (hst : s.flash (blkFirst c i + done.sum + 1) = itemStateNormal) {cb : KvCallback} (hcb : cb.Deletes) :
    LaidOut c k ns (cb.func c s (itemAt c s.flash (blkFirst c i + done.sum))).2.2 ∧
      Kept c s (cb.func c s (itemAt c s.flash (blkFirst c i + done.sum))).2.2 := by
  have hdel := h.delete hi hns hst
  have hidle : LaidOut c k ns s ∧ Kept c s s := ⟨h, .refl c s⟩
  have hb := h.block i hi
  rw [hns] at hb
  have hdr := hb.hdrAt
  generalize blkFirst c i + done.sum = pos at *
  cases cb with
  | recovery =>
    change LaidOut c k ns (itemRecoveryCb c s _).2.2 ∧ Kept c s (itemRecoveryCb c s _).2.2
    unfold itemRecoveryCb
    dsimp only
    split_ifs
    · unfold kvItemDel
      dsimp only
      split
      case isTrue hmatch =>
        have hm : _ ∧ _ ∧ _ := of_decide_eq_true hmatch
        exact h.kill hdr.origin_lt hdr.origin_dvd hm.1 hm.2.1
      case isFalse => exact hidle
    · exact hidle
    · exact hdel
  | find key =>
    change LaidOut c k ns (itemFindCb c key s _).2.2 ∧ Kept c s (itemFindCb c key s _).2.2
    unfold itemFindCb
    dsimp only
    split_ifs
    all_goals exact hidle
  | gc gcIdx => exact hcb.elim
  | delByPrefix keyPrefix =>
    change LaidOut c k ns (itemDelByPrefixCb c keyPrefix s _).2.2 ∧
      Kept c s (itemDelByPrefixCb c keyPrefix s _).2.2
    unfold itemDelByPrefixCb
    dsimp only
    split_ifs
    · exact hidle
    · exact hdel
    · exact hidle
  | delAll exPrefix =>
    change LaidOut c k ns (itemDelAllCb c exPrefix s _).2.2 ∧ Kept c s (itemDelAllCb c exPrefix s _).2.2
    unfold itemDelAllCb
    cases exPrefix with
    | none =>
      dsimp only
      split_ifs
      · exact hdel
      · exact hidle
    | some exPrefix =>
      dsimp only
      split_ifs
      · exact hdel
      · exact hdel
      · exact hidle
      · exact hidle

/-- **A traversal** leaves the layout as it is; one that is not ended by its callback finds the space. What
every item that is passed keeps holds of all items in the end. -/
theorem LaidOut.traverse_rule (h : LaidOut c k ns s) (hi : i < k) (cb : KvCallback) (hcb : cb.Deletes)
    {I : List ℕ → KvMgr → Prop} (hI : I [] s)
    (hdead : ∀ done n rest t, ns i = done ++ n :: rest → LaidOut c k ns t → Kept c s t → I done t →
      t.flash (blkFirst c i + done.sum + 1) = itemStateDelete → I (done ++ [n]) (kvMarkDirty c t i))
    (hitem : ∀ done n rest t, ns i = done ++ n :: rest → LaidOut c k ns t → Kept c s t → I done t →
      t.flash (blkFirst c i + done.sum + 1) = itemStateNormal →
      I (done ++ [n]) (cb.func c t (itemAt c t.flash (blkFirst c i + done.sum))).2.2) :
    ∃ t, LaidOut c k ns t ∧ Kept c s t ∧
      ((kvItemTraverse c (cb.func c) s i).2 = t ∧ (∃ u item, (cb.func c u item).1 ≠ .cont) ∨
        kvItemTraverse c (cb.func c) s i = (none, kvTraverseEnd c t i (blkFirst c i + (ns i).sum)) ∧
          I (ns i) t) := by
  refine scan_rule (J := fun done t => LaidOut c k ns t ∧ Kept c s t ∧ I done t)
    (Q := fun r => ∃ t, LaidOut c k ns t ∧ Kept c s t ∧
      (r.2 = t ∧ (∃ u item, (cb.func c u item).1 ≠ .cont) ∨
        r = (none, kvTraverseEnd c t i (blkFirst c i + (ns i).sum)) ∧ I (ns i) t))
    ⟨(h.block i hi).fits, ?_, ?_, ?_, ?_, ?_⟩ ⟨h, .refl c s, hI⟩
  · intro done n rest t hns hJ
    have hb := hJ.1.block i hi
    rw [hns] at hb
    exact hb.hdrAt
  · intro t hJ
    exact (hJ.1.block i hi).rest
  · intro done n rest t hns hJ hst
    obtain ⟨hl, hk⟩ := hJ.1.markDirty i
    exact ⟨hl, hJ.2.1.trans hk, hdead done n rest t hns hJ.1 hJ.2.1 hJ.2.2 hst⟩
  · intro done n rest t hns hJ hst res item' t' hcall
    obtain ⟨hl, hk⟩ := hJ.1.callback hi hns hst hcb
    have hI' := hitem done n rest t hns hJ.1 hJ.2.1 hJ.2.2 hst
    rw [hcall] at hl hk hI'
    have hk' := hJ.2.1.trans hk
    exact ⟨fun _ => ⟨hl, hk', hI'⟩, fun hres => ⟨t', hl, hk', .inl ⟨rfl, t, _, by rw [hcall]; exact hres⟩⟩⟩
  · intro t hJ
    exact ⟨t, hJ.1, hJ.2.1, .inr ⟨rfl, hJ.2.2⟩⟩

/-- A traversal that deletes at most leaves the layout, and either its callback stops it or it goes to the
end. -/
theorem LaidOut.traverse (h : LaidOut c k ns s) (hi : i < k) (cb : KvCallback)
    (hcb : cb.Deletes) : ∃ t, LaidOut c k ns t ∧ Kept c s t ∧
      ((kvItemTraverse c (cb.func c) s i).2 = t ∧ (∃ u item, (cb.func c u item).1 ≠ .cont) ∨
        kvItemTraverse c (cb.func c) s i = (none, kvTraverseEnd c t i (blkFirst c i + (ns i).sum))) := by
  obtain ⟨t, hl, hk, hr⟩ := h.traverse_rule hi cb hcb (I := fun _ _ => True) trivial
    (fun _ _ _ _ _ _ _ _ _ => trivial) fun _ _ _ _ _ _ _ _ _ => trivial
  exact ⟨t, hl, hk, hr.imp_right And.left⟩

end Traversals

end GenieSdk.Analysis.Kv
