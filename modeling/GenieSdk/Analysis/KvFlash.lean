import GenieSdk.Analysis.KvLayout

/-!
# What the store writes

NOR flash clears bits. `Lawful` lists the writes that are possible on it: an item or a block header on
erased bytes, a step of the state of a block, the deletion of an item. The deletion is the delicate one,
as `__item_recovery_cb` deletes what it finds at an offset that may be out of date. Whatever stands there
begins like an item, and so the byte that is cleared is never one that the layout depends on
(`BlockOn.kill`).
-/

set_option autoImplicit false

namespace GenieSdk.Analysis.Kv

open GenieSdk.Lib
open GenieSdk.Model

/-! ## The deletion -/

section Kill

variable {c : KvConf} {f f' : Mem} {pos off n i : ℕ} {ns : List ℕ}

/-- `f'` is `f` with what looks like an item at `off` deleted. -/
structure Killed (f f' : Mem) (off : ℕ) : Prop where
  dvd : 4 ∣ off
  magic : f off = itemMagicNum
  normal : f (off + 1) = itemStateNormal
  state : f' (off + 1) = itemStateDelete
  same : ∀ a, a ≠ off + 1 → f' a = f a

/-- The number of two bytes. -/
theorem leVal_readBytes_two (f : Mem) (p : ℕ) :
    leVal (readBytes f p 2) = (f p).toNat + 256 * (f (p + 1)).toNat := by
  simp [readBytes, List.range_succ, leVal]

/-- The number of four bytes. -/
theorem leVal_readBytes_four (f : Mem) (p : ℕ) : leVal (readBytes f p 4) =
    (f p).toNat + 256 * ((f (p + 1)).toNat + 256 * ((f (p + 2)).toNat + 256 * (f (p + 3)).toNat)) := by
  simp [readBytes, List.range_succ, leVal]

/-- The lengths in the header are not touched: no value is as long as the bytes would say. -/
theorem Killed.lens (hk : Killed f f' off) (h : HdrAt c f pos n) (hpos : 4 ∣ pos) :
    (readItemHdr c f' pos).keyLen = (readItemHdr c f pos).keyLen ∧
      (readItemHdr c f' pos).valLen = (readItemHdr c f pos).valLen := by
  have hdvd := hk.dvd
  constructor
  · change (f' (pos + 3)).toNat = (f (pos + 3)).toNat
    rw [hk.same _ (by omega)]
  · have hne : off ≠ pos + 4 := by
      rintro rfl
      have hle := h.val_le
      change leVal (readBytes f (pos + 4) 2) ≤ 512 at hle
      rw [leVal_readBytes_two, hk.magic, hk.normal] at hle
      exact absurd hle (by decide)
    change leVal (readBytes f' (pos + 4) 2) = leVal (readBytes f (pos + 4) 2)
    rw [leVal_readBytes_two, leVal_readBytes_two, hk.same _ (by omega), hk.same _ (by omega)]

/-- The old offset loses its high byte at most. -/
theorem Killed.origin (hk : Killed f f' off) (h : HdrAt c f pos n) (hpos : 4 ∣ pos) :
    (readItemHdr c f' pos).originOff < c.blkNums * c.blkSize ∧
      4 ∣ (readItemHdr c f' pos).originOff := by
  have hdvd := hk.dvd
  have hlt := h.origin_lt
  have ho := h.origin_dvd
  change leVal (readBytes f (pos + 6) (kvSizeBytes c)) < _ at hlt
  change 4 ∣ leVal (readBytes f (pos + 6) (kvSizeBytes c)) at ho
  change leVal (readBytes f' (pos + 6) (kvSizeBytes c)) < _ ∧
    4 ∣ leVal (readBytes f' (pos + 6) (kvSizeBytes c))
  have hcases : kvSizeBytes c = 2 ∨ kvSizeBytes c = 4 := by
    unfold kvSizeBytes
    split
    · exact .inr rfl
    · exact .inl rfl
  rcases hcases with h2 | h4
  · rw [h2, leVal_readBytes_two] at hlt ho
    rw [h2, leVal_readBytes_two, hk.same _ (by omega), hk.same _ (by omega)]
    exact ⟨hlt, ho⟩
  · rw [h4, leVal_readBytes_four] at hlt ho
    rw [h4, leVal_readBytes_four, hk.same (pos + 6) (by omega), hk.same (pos + 6 + 1) (by omega),
      hk.same (pos + 6 + 2) (by omega)]
    by_cases hoff : off + 1 = pos + 6 + 3
    · rw [← hoff, hk.state]
      rw [← hoff] at hlt ho
      have hzero : itemStateDelete.toNat = 0 := rfl
      omega
    · rw [hk.same _ (Ne.symm hoff)]
      exact ⟨hlt, ho⟩

/-- A header stays where an item is killed. -/
theorem HdrAt.kill (h : HdrAt c f pos n) (hk : Killed f f' off) (hpos : 4 ∣ pos) : HdrAt c f' pos n := by
  have hdvd := hk.dvd
  obtain ⟨hkey, hval⟩ := hk.lens h hpos
  obtain ⟨horg, horg'⟩ := hk.origin h hpos
  refine ⟨?_, ?_, ?_, ?_, ?_, ?_, ?_, horg, horg'⟩
  · rw [hk.same _ (by omega), h.magic]
  · by_cases hoff : off = pos
    · exact .inr (hoff ▸ hk.state)
    · rw [hk.same _ (by omega)]
      exact h.state
  · rw [hkey]
    exact h.key_pos
  · rw [hkey]
    exact h.key_le
  · rw [hval]
    exact h.val_pos
  · rw [hval]
    exact h.val_le
  · rw [hkey, hval]
    exact h.size

/-- So do all headers of a block. -/
theorem LaidFrom.kill (h : LaidFrom c f pos ns) (hk : Killed f f' off) (hpos : 4 ∣ pos) :
    LaidFrom c f' pos ns := by
  induction ns generalizing pos with
  | nil => trivial
  | cons n ns ih => exact ⟨h.1.kill hk hpos, ih h.2 (hpos.add h.1.size_spec.2)⟩

/-- **A deletion leaves the layout as it is**, wherever the offset points. -/
theorem BlockOn.kill (h : BlockOn c f i ns) (hk : Killed f f' off) : BlockOn c f' i ns := by
  have hdvd := hk.dvd
  have h4 : 4 ∣ i * c.blkSize := (blkSize_dvd c).mul_left i
  have hne : off ≠ i * c.blkSize := by
    rintro rfl
    exact absurd (h.magic.symm.trans hk.magic) (by decide)
  refine ⟨?_, ?_, h.laid.kill hk (blkFirst_dvd c i), h.fits, fun a ha hb => ?_⟩
  · rw [hk.same _ (by omega), h.magic]
  · rw [hk.same _ (by omega)]
    exact h.state
  · have hff := h.rest a ha hb
    rw [hk.same a ?_, hff]
    rintro rfl
    exact absurd (hff.symm.trans hk.normal) (by decide)

/-- What looks like an item lies in a block. -/
theorem BlockOn.kill_in (h : BlockOn c f i ns) (hdvd : 4 ∣ off) (hmagic : f off = itemMagicNum)
    (hlo : i * c.blkSize ≤ off) (hhi : off < blkStop c i) :
    blkFirst c i ≤ off ∧ off + 1 < blkStop c i := by
  have h4 : 4 ∣ i * c.blkSize := (blkSize_dvd c).mul_left i
  have hstop := blkStop_dvd c i
  have hne : off ≠ i * c.blkSize := by
    rintro rfl
    exact absurd (h.magic.symm.trans hmagic) (by decide)
  have hfirst : i * c.blkSize + 4 = blkFirst c i := rfl
  omega

end Kill

/-! ## The writes -/

/-- The ways the state of a block goes. -/
inductive BlkMove : UInt8 → UInt8 → Prop
  | use : BlkMove blkStateClean blkStateUsed
  | dirty : BlkMove blkStateUsed blkStateDirty
  | recover : BlkMove blkStateClean blkStateDirty

/-- What a flash that holds `f` can be told to do. -/
inductive Lawful (c : KvConf) (f : Mem) : FlashOp → Prop
  | erase {i : ℕ} : i < c.blkNums → Lawful c f (.erase (i * c.blkSize) c.blkSize)
  | fresh {i pos : ℕ} {bytes : List UInt8} : i < c.blkNums → i * c.blkSize ≤ pos →
      pos + bytes.length ≤ blkStop c i → (∀ k < bytes.length, f (pos + k) = 0xFF) →
      Lawful c f (.write pos bytes)
  | blkState {i : ℕ} {st : UInt8} : i < c.blkNums → f (i * c.blkSize) = blkMagicNum →
      BlkMove (f (i * c.blkSize + 1)) st → Lawful c f (.write (i * c.blkSize + 1) [st])
  | itemState {i off : ℕ} : i < c.blkNums → blkFirst c i ≤ off → off + 1 < blkStop c i →
      f off = itemMagicNum → f (off + 1) = itemStateNormal →
      Lawful c f (.write (off + 1) [itemStateDelete])

/-- One after the other. -/
def LawfulAll (c : KvConf) : Mem → List FlashOp → Prop
  | _, [] => True
  | f, op :: ops => Lawful c f op ∧ LawfulAll c (op.apply f) ops

/-- All that is done to the flash is lawful, and recorded. -/
def Obeys (c : KvConf) (s s' : KvMgr) : Prop :=
  ∃ ops, s'.trace = s.trace ++ ops ∧ s'.flash = ops.foldl FlashOp.apply s.flash ∧
    LawfulAll c s.flash ops

section Obeys

variable {c : KvConf} {f : Mem} {s s' s'' : KvMgr} {ops ops' : List FlashOp} {op : FlashOp}

/-- Two lists of lawful operations. -/
theorem lawfulAll_append : LawfulAll c f (ops ++ ops') ↔
    LawfulAll c f ops ∧ LawfulAll c (ops.foldl FlashOp.apply f) ops' := by
  induction ops generalizing f with
  | nil => simp [LawfulAll]
  | cons op ops ih => simp [LawfulAll, ih, and_assoc]

/-- Nothing is done. -/
theorem Obeys.refl (c : KvConf) (s : KvMgr) : Obeys c s s := ⟨[], by simp, rfl, trivial⟩

/-- Two steps that obey. -/
theorem Obeys.trans (h : Obeys c s s') (h' : Obeys c s' s'') : Obeys c s s'' := by
  obtain ⟨ops, ht, hf, hl⟩ := h
  obtain ⟨ops', ht', hf', hl'⟩ := h'
  refine ⟨ops ++ ops', ?_, ?_, lawfulAll_append.2 ⟨hl, hf ▸ hl'⟩⟩
  · rw [ht', ht, List.append_assoc]
  · rw [hf', hf, List.foldl_append]

/-- Nothing is done. -/
theorem obeys_of_eq (ht : s'.trace = s.trace) (hf : s'.flash = s.flash) : Obeys c s s' :=
  ⟨[], by rw [ht, List.append_nil], hf, trivial⟩

/-- One operation. -/
theorem obeys_doFlash (h : Lawful c s.flash op) (ht : s'.trace = s.trace ++ [op])
    (hf : s'.flash = op.apply s.flash) : Obeys c s s' := ⟨[op], ht, hf, h, trivial⟩

end Obeys

end GenieSdk.Analysis.Kv
