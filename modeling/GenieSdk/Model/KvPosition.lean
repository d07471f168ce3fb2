import GenieSdk.Model.KvMgr

/-!
# The position of the next item

`kv_calc_position` by itself, for every number of blocks. `i` and `blk_idx` are 8 bits wide, and the
loop takes as many rounds as it takes. As far as `kv_init` lets the number of blocks go this is
`kvCalcPosition`.
-/

set_option autoImplicit false

namespace GenieSdk.Model

/-- A block with enough space has been found. SRCLINE: kvmgr.c:166-178 -/
def kvTakeBlk (c : KvConf) (s : KvMgr) (i : ℕ) : ℕ × KvMgr :=
  let writePos := i * c.blkSize + c.blkSize - (s.blockInfo i).space
  let s := { s with writePos := writePos }
  if (s.blockInfo i).state = blkStateClean then
    let s := kvStateSet s (i * c.blkSize) blkStateUsed
    let s := s.setState i blkStateUsed
    (writePos, { s with cleanBlkNums := s.cleanBlkNums - 1 })
  else (writePos, s)

/-- At most `fuel` rounds of the loop. SRCLINE: kvmgr.c:158-180 -/
def kvCalcRounds (c : KvConf) (s : KvMgr) (len blkIdx : ℕ) : ℕ → ℕ → Option (ℕ × KvMgr)
  | 0, _ => none
  | fuel + 1, i =>
    if i = blkIdx then some (0, kvTriggerGc s)
    else
      let i := if i = c.blkNums then 0 else i
      if len < (s.blockInfo i).space then some (kvTakeBlk c s i)
      else kvCalcRounds c s len blkIdx fuel ((i + 1) % 256)

/-- SRCLINE: kvmgr.c:135-185 -/
def kvCalcPositionIn (fuel : ℕ) (c : KvConf) (s : KvMgr) (len : ℕ) : Option (ℕ × KvMgr) :=
  let blkIdx := s.writePos / c.blkSize % 256
  let space := (s.blockInfo blkIdx).space
  if len < space then
    if space - len < itemMaxLen c ∧ s.cleanBlkNums ≤ kvGcReserved then
      some (s.writePos, kvTriggerGc s)
    else some (s.writePos, s)
  else if kvGcReserved + 1 < c.blkNums then
    kvCalcRounds c s len blkIdx fuel ((blkIdx + 1) % 256)
  else some (0, kvTriggerGc s)

/-- The rounds of the search are the scan of the blocks. -/
theorem kvCalcRounds_eq (c : KvConf) (s : KvMgr) (len blkIdx : ℕ) (hpos : 0 < c.blkNums)
    (hc : c.blkNums < 256) {fuel i : ℕ} (hi : i ≤ c.blkNums) :
    kvCalcRounds c s len blkIdx fuel i = kvCalcScan c s len blkIdx fuel i := by
  induction fuel generalizing i with
  | zero => rfl
  | succ fuel ih =>
    unfold kvCalcRounds kvCalcScan
    dsimp only
    generalize hj : (if i = c.blkNums then 0 else i) = j
    have hjlt : j < c.blkNums := by
      rw [← hj]
      split <;> omega
    rw [Nat.mod_eq_of_lt (by omega), ih (by omega)]
    unfold kvTakeBlk
    by_cases hst : (s.blockInfo j).state = blkStateClean
    · simp only [if_pos hst]
    · simp only [if_neg hst]

/-- The loop of the store ends as this one does. -/
theorem kvCalcPosition_eq (c : KvConf) (s : KvMgr) (len : ℕ) (hc : c.blkNums < 256)
    (hs : s.writePos / c.blkSize < c.blkNums) :
    kvCalcPosition c s len = kvCalcPositionIn (2 * c.blkNums) c s len := by
  unfold kvCalcPosition kvCalcPositionIn
  generalize s.writePos / c.blkSize = blkIdx at *
  dsimp only
  rw [Nat.mod_eq_of_lt (by omega : blkIdx < 256), Nat.mod_eq_of_lt (by omega),
    kvCalcRounds_eq c s len _ (by omega) hc (by omega)]

end GenieSdk.Model
