import GenieSdk.Model.KvPosition
import Mathlib.Tactic.Ring

/-!
# The search for a write position

`kv_calc_position` tries the block it wrote to last and then the others, around the end. The index goes
back to 0 inside the loop, past the test of `i != blk_idx`: **a search that starts from block 0 and finds
nothing does not end, and every other search is right** (`kv_calc_position_complete_iff`), as long as 8
bits are enough for the number of a block.
-/

set_option autoImplicit false

namespace GenieSdk.Analysis.Kv

open GenieSdk.Model

/-- More than `len` bytes are free in block `i`. -/
def HasSpace (s : KvMgr) (len i : ℕ) : Prop := len < (s.blockInfo i).space

instance (s : KvMgr) (len i : ℕ) : Decidable (HasSpace s len i) :=
  inferInstanceAs (Decidable (len < _))

/-- The write position lies in a block, behind its header, and no block has more space than there is
behind its header. -/
structure KvPlaced (c : KvConf) (s : KvMgr) : Prop where
  blk : s.writePos / c.blkSize < c.blkNums
  hdr : blkHdrSize ≤ s.writePos % c.blkSize
  space : ∀ i < c.blkNums, (s.blockInfo i).space ≤ c.blkSize - blkHdrSize

/-- The call returns: a position in a block with enough space if there is one, and otherwise 0, with a
collection triggered. -/
def PositionFound (c : KvConf) (s : KvMgr) (len : ℕ) : Prop :=
  ∃ fuel p s', kvCalcPositionIn fuel c s len = some (p, s') ∧
    ((∃ i < c.blkNums, HasSpace s len i) →
      p ≠ 0 ∧ p / c.blkSize < c.blkNums ∧ HasSpace s len (p / c.blkSize)) ∧
    ((∀ i < c.blkNums, ¬ HasSpace s len i) → p = 0 ∧ s'.gcTrigger = true)

/-- **The condition.** A search that finds nothing has not started from block 0 and has seen every block;
and the block that is tried first is the one that is written to. With less than 256 blocks this says: the
search starts from another block than 0, or some block has space. -/
def SearchFits (c : KvConf) (s : KvMgr) (len : ℕ) : Prop :=
  let blk := s.writePos / c.blkSize
  (HasSpace s len (blk % 256) → HasSpace s len blk) ∧
    ((∀ i < min c.blkNums 256, ¬ HasSpace s len i) →
      (blk % 256 ≠ 0 ∨ 256 ≤ c.blkNums) ∧ ∀ i < c.blkNums, ¬ HasSpace s len i)

/-- Block `j` is still to be tried when the index is `i` and the search ends at `b`. -/
def StillAhead (b n i j : ℕ) : Prop := if b < i then i ≤ j ∧ j < n ∨ j < b else i ≤ j ∧ j < b

/-- The rounds that are left. -/
def roundsLeft (b n i : ℕ) : ℕ := if b < i then n - i + b else b - i

section Rounds

variable {c : KvConf} {s s' : KvMgr} {len b i j p fuel : ℕ}

/-- Where the next round starts. -/
theorem stillAhead_next (hb : b < min c.blkNums 256) (hi : i ≤ c.blkNums) (hi' : i < 256) (hne : i ≠ b)
    (hj : StillAhead b (min c.blkNums 256) i j) (hother : j ≠ if i = c.blkNums then 0 else i) :
    StillAhead b (min c.blkNums 256) (((if i = c.blkNums then 0 else i) + 1) % 256) j := by
  unfold StillAhead at *
  generalize hk : (if i = c.blkNums then 0 else i) = k at *
  split at hk <;> split at hj <;> split <;> omega

/-- The loop cannot go round and round except from block 0. -/
theorem roundsLeft_next (hb : b < min c.blkNums 256) (hi : i ≤ c.blkNums) (hi' : i < 256) (hne : i ≠ b)
    (hzero : b ≠ 0 ∨ i ≠ c.blkNums) :
    roundsLeft b (min c.blkNums 256) (((if i = c.blkNums then 0 else i) + 1) % 256) <
      roundsLeft b (min c.blkNums 256) i := by
  unfold roundsLeft
  generalize hk : (if i = c.blkNums then 0 else i) = k
  split at hk <;> split <;> split <;> omega

/-- What the loop returns, if it returns. -/
theorem kvCalcRounds_sound (hb : b < min c.blkNums 256) (hi : i ≤ c.blkNums) (hi' : i < 256)
    {r : ℕ × KvMgr} (h : kvCalcRounds c s len b fuel i = some r) :
    (∃ j < min c.blkNums 256, HasSpace s len j ∧ r = kvTakeBlk c s j) ∨
      r = (0, kvTriggerGc s) ∧ ∀ j, StillAhead b (min c.blkNums 256) i j → ¬ HasSpace s len j := by
  induction fuel generalizing i with
  | zero => cases h
  | succ fuel ih =>
    unfold kvCalcRounds at h
    by_cases hib : i = b
    · rw [if_pos hib] at h
      refine .inr ⟨(Option.some.inj h).symm, fun j hj => ?_⟩
      unfold StillAhead at hj
      split at hj <;> omega
    · rw [if_neg hib] at h
      have hnext := fun j => stillAhead_next (j := j) hb hi hi' hib
      have hlt : (if i = c.blkNums then 0 else i) < min c.blkNums 256 := by
        split <;> omega
      generalize (if i = c.blkNums then 0 else i) = k at *
      dsimp only at h
      by_cases hk : len < (s.blockInfo k).space
      · rw [if_pos hk] at h
        exact .inl ⟨k, hlt, hk, (Option.some.inj h).symm⟩
      · rw [if_neg hk] at h
        rcases ih (by omega) (by omega) h with hfound | ⟨hr, hnone⟩
        · exact .inl hfound
        · refine .inr ⟨hr, fun j hj => ?_⟩
          by_cases hjk : j = k
          · exact hjk ▸ hk
          · exact hnone j (hnext j hj hjk)

/-- The loop ends if it does not start from block 0, or will meet a block with space. -/
theorem kvCalcRounds_ends (hb : b < min c.blkNums 256) (hi : i ≤ c.blkNums) (hi' : i < 256)
    (h : b ≠ 0 ∨ 256 ≤ c.blkNums ∨ ∃ j, StillAhead b (min c.blkNums 256) i j ∧ HasSpace s len j) :
    ∃ fuel r, kvCalcRounds c s len b fuel i = some r := by
  induction hn : roundsLeft b (min c.blkNums 256) i using Nat.strong_induction_on generalizing i with
  | _ n ih =>
    by_cases hib : i = b
    · exact ⟨1, (0, kvTriggerGc s), by rw [kvCalcRounds, if_pos hib]⟩
    by_cases hk : len < (s.blockInfo (if i = c.blkNums then 0 else i)).space
    · exact ⟨1, _, by rw [kvCalcRounds, if_neg hib]; exact if_pos hk⟩
    have hzero : b ≠ 0 ∨ i ≠ c.blkNums := by
      rcases h with h | h | ⟨j, hj, -⟩
      · exact .inl h
      · exact .inr (by omega)
      · by_contra hc
        unfold StillAhead at hj
        split at hj <;> omega
    have hnext : b ≠ 0 ∨ 256 ≤ c.blkNums ∨ ∃ j, StillAhead b (min c.blkNums 256)
        (((if i = c.blkNums then 0 else i) + 1) % 256) j ∧ HasSpace s len j := by
      rcases h with h | h | ⟨j, hj, hspace⟩
      · exact .inl h
      · exact .inr (.inl h)
      · exact .inr (.inr ⟨j, stillAhead_next hb hi hi' hib hj fun hjk => hk (hjk ▸ hspace), hspace⟩)
    have hle : ((if i = c.blkNums then 0 else i) + 1) % 256 ≤ c.blkNums := by
      split <;> omega
    obtain ⟨fuel, r, hr⟩ := ih _ (hn ▸ roundsLeft_next hb hi hi' hib hzero) hle (by omega) hnext rfl
    exact ⟨fuel + 1, r, by rw [kvCalcRounds, if_neg hib]; exact (if_neg hk).trans hr⟩

/-- From block 0 the index goes round behind the test. -/
theorem kvCalcRounds_never (hc : c.blkNums < 256) (hnone : ∀ j < c.blkNums, ¬ HasSpace s len j)
    (hpos : 0 < i) (hi : i ≤ c.blkNums) : kvCalcRounds c s len 0 fuel i = none := by
  induction fuel generalizing i with
  | zero => rfl
  | succ fuel ih =>
    unfold kvCalcRounds
    have hlt : (if i = c.blkNums then 0 else i) < c.blkNums := by
      split <;> omega
    rw [if_neg (by omega)]
    generalize (if i = c.blkNums then 0 else i) = k at *
    exact (if_neg (hnone k hlt)).trans (ih (by omega) (by omega))

end Rounds

section Position

variable {c : KvConf} {s : KvMgr} {len p : ℕ}

/-- A block is longer than its header. -/
theorem blkHdrSize_lt (c : KvConf) : blkHdrSize < c.blkSize :=
  lt_of_lt_of_le (by decide : 4 < 2 ^ 12) (Nat.pow_le_pow_right (by norm_num) c.sector)

/-- The position is in the block that was found. -/
theorem kvTakeBlk_spec (hs : KvPlaced c s) {i : ℕ} (hi : i < c.blkNums) (hspace : HasSpace s len i) :
    (kvTakeBlk c s i).1 ≠ 0 ∧ (kvTakeBlk c s i).1 / c.blkSize = i := by
  have hle := hs.space i hi
  have hhdr := blkHdrSize_lt c
  have hfst : (kvTakeBlk c s i).1 = i * c.blkSize + c.blkSize - (s.blockInfo i).space := by
    unfold kvTakeBlk
    dsimp only
    split <;> rfl
  unfold HasSpace at hspace
  have hblk : 0 < blkHdrSize := by decide
  have hsum : (i + 1) * c.blkSize = i * c.blkSize + c.blkSize := by ring
  rw [hfst]
  exact ⟨by omega, Nat.div_eq_of_lt_le (by omega) (by omega)⟩

/-- Waking the collector is noted. -/
theorem kvTriggerGc_gcTrigger (s : KvMgr) : (kvTriggerGc s).gcTrigger = true := by
  unfold kvTriggerGc
  split
  · assumption
  · rfl

/-- The block of the write position is tried first. -/
theorem kvCalcPositionIn_first (hfirst : HasSpace s len (s.writePos / c.blkSize % 256)) (fuel : ℕ) :
    ∃ s', kvCalcPositionIn fuel c s len = some (s.writePos, s') := by
  unfold kvCalcPositionIn
  dsimp only
  rw [if_pos (show len < _ from hfirst)]
  split
  · exact ⟨_, rfl⟩
  · exact ⟨_, rfl⟩

/-- Otherwise the others are searched. -/
theorem kvCalcPositionIn_rest (hc : 3 ≤ c.blkNums)
    (hfirst : ¬ HasSpace s len (s.writePos / c.blkSize % 256)) (fuel : ℕ) :
    kvCalcPositionIn fuel c s len = kvCalcRounds c s len (s.writePos / c.blkSize % 256) fuel
      ((s.writePos / c.blkSize % 256 + 1) % 256) := by
  unfold kvCalcPositionIn
  dsimp only
  rw [if_neg (show ¬ len < _ from hfirst), if_pos (by unfold kvGcReserved; omega)]

/-- The write position is not 0. -/
theorem KvPlaced.writePos_ne (hs : KvPlaced c s) : s.writePos ≠ 0 := by
  intro h
  have := hs.hdr
  rw [h, Nat.zero_mod] at this
  exact absurd this (by decide)

/-- **The search for a write position**: when it ends with what is asked for. -/
theorem kv_calc_position_complete_iff (c : KvConf) (s : KvMgr) (len : ℕ) (hc : 3 ≤ c.blkNums)
    (hs : KvPlaced c s) : PositionFound c s len ↔ SearchFits c s len := by
  have hblk := hs.blk
  unfold SearchFits
  generalize hw : s.writePos / c.blkSize = w at hblk ⊢
  have hb : w % 256 < min c.blkNums 256 := by omega
  by_cases hfirst : HasSpace s len (w % 256)
  · -- The block tried first has space.
    have hposition := fun fuel => kvCalcPositionIn_first (hw.symm ▸ hfirst) fuel
    constructor
    · rintro ⟨fuel, p, s', hcall, hfound, -⟩
      obtain ⟨t, ht⟩ := hposition fuel
      obtain ⟨rfl, -⟩ : s.writePos = p ∧ t = s' := by simpa using ht.symm.trans hcall
      refine ⟨fun _ => ?_, fun hnone => absurd hfirst (hnone _ hb)⟩
      have := hfound ⟨w % 256, by omega, hfirst⟩
      rw [hw] at this
      exact this.2.2
    · rintro ⟨hown, -⟩
      obtain ⟨t, ht⟩ := hposition 0
      refine ⟨0, _, t, ht, fun _ => ?_, fun hnone => absurd hfirst (hnone _ (by omega))⟩
      rw [hw]
      exact ⟨hs.writePos_ne, hblk, hown hfirst⟩
  · -- The others are searched.
    have hcall := fun fuel => kvCalcPositionIn_rest hc (hw.symm ▸ hfirst) fuel
    rw [hw] at hcall
    have hstart : (w % 256 + 1) % 256 ≤ c.blkNums := by omega
    have hlt : (w % 256 + 1) % 256 < 256 := by omega
    have hahead : ∀ j < min c.blkNums 256, j ≠ w % 256 →
        StillAhead (w % 256) (min c.blkNums 256) ((w % 256 + 1) % 256) j := by
      intro j hj hne
      unfold StillAhead
      split <;> omega
    constructor
    · rintro ⟨fuel, p, s', hret, hfound, -⟩
      rw [hcall] at hret
      refine ⟨fun h => absurd h hfirst, fun hnone => ?_⟩
      have hends : w % 256 ≠ 0 ∨ 256 ≤ c.blkNums := by
        by_contra hc'
        have hzero : w % 256 = 0 := by omega
        rw [hzero, kvCalcRounds_never (by omega) (fun j hj => hnone j (by omega)) (by omega)
          (by omega)] at hret
        cases hret
      refine ⟨hends, fun i hi hspace => ?_⟩
      have hp := hfound ⟨i, hi, hspace⟩
      rcases kvCalcRounds_sound hb hstart hlt hret with ⟨j, hj, hjs, hr⟩ | ⟨hr, -⟩
      · exact absurd hjs (hnone j hj)
      · exact hp.1 (congrArg Prod.fst hr)
    · rintro ⟨-, hcond⟩
      by_cases hnone : ∀ i < min c.blkNums 256, ¬ HasSpace s len i
      · obtain ⟨hends, hall⟩ := hcond hnone
        obtain ⟨fuel, r, hr⟩ : ∃ fuel r, kvCalcRounds c s len (w % 256) fuel
            ((w % 256 + 1) % 256) = some r := kvCalcRounds_ends hb hstart hlt
          (hends.imp id .inl)
        rcases kvCalcRounds_sound hb hstart hlt hr with ⟨j, hj, hjs, -⟩ | ⟨rfl, -⟩
        · exact absurd hjs (hall j (by omega))
        · exact ⟨fuel, 0, _, (hcall fuel).trans hr, fun ⟨i, hi, hsp⟩ => absurd hsp (hall i hi),
            fun _ => ⟨rfl, kvTriggerGc_gcTrigger s⟩⟩
      · push Not at hnone
        obtain ⟨i, hi, hspace⟩ := hnone
        have hi' := hahead i hi (fun h => hfirst (h ▸ hspace))
        obtain ⟨fuel, r, hr⟩ : ∃ fuel r, kvCalcRounds c s len (w % 256) fuel
            ((w % 256 + 1) % 256) = some r := kvCalcRounds_ends hb hstart hlt
          (.inr (.inr ⟨i, hi', hspace⟩))
        rcases kvCalcRounds_sound hb hstart hlt hr with ⟨j, hj, hjs, rfl⟩ | ⟨-, hnot⟩
        · have hj : j < c.blkNums := by omega
          obtain ⟨hp, hdiv⟩ := kvTakeBlk_spec hs hj hjs
          exact ⟨fuel, _, _, (hcall fuel).trans hr, fun _ => ⟨hp, hdiv.symm ▸ hj, hdiv.symm ▸ hjs⟩,
            fun hno => absurd hspace (hno i (by omega))⟩
        · exact absurd hspace (hnot i hi')

end Position

/-- The size of a block is that of a sector at least. -/
theorem threeBlks_sector : 12 ≤ 12 := le_rfl

/-- Three blocks fit into 32 bits. -/
theorem threeBlks_total : 3 * 2 ^ 12 < 2 ^ 32 := by decide

/-- Three blocks of 4 KB. -/
def threeBlks : KvConf := ⟨12, 3, threeBlks_sector, threeBlks_total⟩

/-- Twelve bytes are left in every block; `blk` was written to last. -/
def fullBlks (blk : ℕ) : KvMgr where
  flash := fun _ => 0
  trace := []
  gcTrigger := false
  gcWaiter := 0
  cleanBlkNums := 0
  writePos := blk * 4096 + 4084
  blockInfo := fun _ => ⟨12, blkStateDirty⟩

/-- That store has its write position in one of its blocks. -/
theorem fullBlks_placed {blk : ℕ} (h : blk < 3) : KvPlaced threeBlks (fullBlks blk) := by
  have hsize : threeBlks.blkSize = 4096 := by decide
  refine ⟨?_, ?_, fun i _ => ?_⟩
  · rw [hsize]
    change (blk * 4096 + 4084) / 4096 < 3
    omega
  · rw [hsize]
    change 4 ≤ (blk * 4096 + 4084) % 4096
    omega
  · rw [hsize]
    change 12 ≤ 4096 - 4
    decide

/-- A search from block 1. -/
theorem kv_calc_position_complete_iff_full : 3 ≤ threeBlks.blkNums ∧
    KvPlaced threeBlks (fullBlks 1) ∧
    (PositionFound threeBlks (fullBlks 1) 600 ↔ SearchFits threeBlks (fullBlks 1) 600) :=
  ⟨by decide, fullBlks_placed (by decide),
    kv_calc_position_complete_iff threeBlks (fullBlks 1) 600 (by decide) (fullBlks_placed (by decide))⟩

/-- The same from block 0 does not end. -/
theorem search_from_blk_zero : KvPlaced threeBlks (fullBlks 0) ∧
    ¬ PositionFound threeBlks (fullBlks 0) 600 := by
  refine ⟨fullBlks_placed (by decide), ?_⟩
  rintro ⟨fuel, p, s', hret, -⟩
  have hnone : ∀ j, ¬ HasSpace (fullBlks 0) 600 j := fun j => by
    change ¬ 600 < 12
    decide
  have hblk : (fullBlks 0).writePos / threeBlks.blkSize % 256 = 0 := by decide
  rw [kvCalcPositionIn_rest (by decide) (hnone _), hblk,
    kvCalcRounds_never (by decide) (fun j _ => hnone j) (by decide) (by decide)] at hret
  cases hret

end GenieSdk.Analysis.Kv
