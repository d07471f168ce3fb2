import GenieSdk.Analysis.KvRecover
import GenieSdk.Analysis.KvRefines

/-!
# Reboots

`kv_init` reads the items and writes to them: it deletes what an old offset points to, and it formats block 0 if
there is no clean block. A reboot in which it has no reason for either keeps the map (`reboot_keeps`). In
`staleOffsetRun` an old offset has come to point into the value of another item.
-/

set_option autoImplicit false

namespace GenieSdk.Analysis.Kv

open GenieSdk.Lib
open GenieSdk.Model

/-- The old offset of the item, if recovery follows it, points into no item to what looks like an item with the
key. -/
def OffsetSafe (c : KvConf) (f : Mem) (item : KvItem) : Prop :=
  Stale item → ∀ j < c.blkNums, ∀ y ∈ kvItems c f j, y.1.pos ≤ item.hdr.originOff →
    item.hdr.originOff < y.1.pos + y.2 →
    ¬ LooksLike c f item.hdr.originOff (y.1.pos + y.2) (itemKey c f item)

instance (c : KvConf) (f : Mem) (item : KvItem) : Decidable (OffsetSafe c f item) := by
  unfold OffsetSafe
  infer_instance

/-- That holds for all items. -/
def OriginsSafe (c : KvConf) (f : Mem) : Prop := ∀ i < c.blkNums, ∀ x ∈ kvItems c f i, OffsetSafe c f x.1

instance (c : KvConf) (f : Mem) : Decidable (OriginsSafe c f) := by
  unfold OriginsSafe
  infer_instance

/-- There is a clean block, or nothing to lose in block 0. -/
def HasReserve (c : KvConf) (f : Mem) : Prop :=
  (∃ i < c.blkNums, f (i * c.blkSize + 1) = blkStateClean) ∨ kvItems c f 0 = []

instance (c : KvConf) (f : Mem) : Decidable (HasReserve c f) := by
  unfold HasReserve
  infer_instance

/-- **The condition.** A reboot finds a flash in which the origin of each item is safe to follow (`OriginsSafe`) and a
block is clean or block 0 has no items (`HasReserve`), and no call sets the empty key. -/
def RebootSafe (c : KvConf) (s : KvMgr) : KvAct → Prop
  | .boot => OriginsSafe c s.flash ∧ HasReserve c s.flash
  | .call (.set key _) => key ≠ []
  | .call _ => True

instance (c : KvConf) (s : KvMgr) : (a : KvAct) → Decidable (RebootSafe c s a)
  | .boot => inferInstanceAs (Decidable (OriginsSafe c s.flash ∧ HasReserve c s.flash))
  | .call (.set key _) => decidable_of_iff (key.isEmpty = false) List.isEmpty_eq_false_iff
  | .call (.get _ _) => .isTrue trivial
  | .call (.del _) => .isTrue trivial
  | .call (.delByPrefix _) => .isTrue trivial
  | .call (.delAll _) => .isTrue trivial
  | .call .gc => .isTrue trivial

section Reboot

variable {c : KvConf} {ns : ℕ → List ℕ} {s s' : KvMgr} {m : KvMap} {f : Mem}

/-- The rows and the items that are listed. -/
theorem OriginsSafe.recoverySafe (h : OriginsSafe c f) (hf : FlashLaid c ns f) :
    RecoverySafe c ns (fun _ => False) f := by
  intro i pos n hp hstale j p m hq hlo hhi hlook
  have hx := hp.place.listed (hf.blockOf hp.lt hp.place) hp.normal
  have hy := hq.place.listed (hf.blockOf hq.lt hq.place) hq.normal
  exact absurd hlook (h i hp.lt _ hx hstale j hq.lt _ hy hlo hhi)

/-- The blocks of a layout have known states. -/
theorem Layout.mark_ne_erased {i : ℕ} (h : Layout c ns s) (hi : i < c.blkNums) :
    s.flash (i * c.blkSize + 1) ≠ 0xFF := by
  rcases (h.laid.block i hi).state with hst | hst | hst
  · rw [hst]
    decide
  · rw [hst]
    decide
  · rw [hst]
    decide

/-- No block is taken for the target of a collection. -/
theorem InitLaid.unclean_nil {t s₀ : KvMgr} {J : Mem → Prop} {unclean : List ℕ} (h : Layout c ns s)
    (ht : InitLaid c ns J s₀ c.blkNums t unclean) (hmarks : MarksKept c s.flash t.flash) : unclean = [] := by
  refine List.eq_nil_iff_forall_not_mem.2 fun i hmem => ?_
  obtain ⟨hi, hst⟩ := mem_cleanBlks.1 (ht.counted.clean i hmem)
  have hne := (ht.holds i hi hst).1 hmem
  rw [ht.laid.mark i hi, hmarks.clean_iff hi (h.mark_ne_erased hi), ← h.laid.mark i hi] at hst
  exact hne (h.clean i hi hst)

/-- Without a clean block there is nothing in block 0. -/
theorem HasReserve.first_empty {t s₀ : KvMgr} {J : Mem → Prop} {E : Entries} (hr : HasReserve c s.flash)
    (hn : 0 < c.blkNums) (h : Layout c ns s) (hE : Content c ns s.flash E)
    (ht : InitLaid c ns J s₀ c.blkNums t []) (hmarks : MarksKept c s.flash t.flash) (hzero : t.cleanBlkNums = 0)
    {pos : ℕ} {key val : List UInt8} (he : E pos key val) :
    ¬ (blkFirst c 0 ≤ pos ∧ pos < blkStop c 0) := by
  rintro ⟨hlo, hhi⟩
  rcases hr with ⟨i, hi, hclean⟩ | hnil
  · have hmem : i ∈ cleanBlks c t := mem_cleanBlks.2 ⟨hi, by
      rw [ht.laid.mark i hi, hmarks.clean_iff hi (h.mark_ne_erased hi)]
      exact hclean⟩
    have hnums : t.cleanBlkNums = (cleanBlks c t).card := ht.counted.nums
    have hcard := Finset.card_pos.2 ⟨i, hmem⟩
    omega
  · obtain ⟨n, hp, hentry⟩ := hE.place h.laid.flashLaid he hlo hhi
    have hmem := hp.listed (h.laid.block 0 hn) hentry.normal
    rw [hnil] at hmem
    exact absurd hmem List.not_mem_nil

/-- **A reboot keeps the map.** -/
theorem Layout.reboot (h : Layout c ns s) (hn : 0 < c.blkNums) (hsafe : OriginsSafe c s.flash)
    (hr : HasReserve c s.flash) (hm : Holds c ns s.flash m) (hinit : kvInit c s.boot = some s') :
    ∃ ns', Layout c ns' s' ∧ Holds c ns' s'.flash m := by
  obtain ⟨E, hE, hd, hrep⟩ := hm
  have hf := h.laid.flashLaid
  unfold kvInit at hinit
  split at hinit
  case isTrue => cases hinit
  case isFalse =>
    have hblocks := kvInitBlocks_laid hf (initKeeps_killedIn hE hf (hsafe.recoverySafe hf))
      ⟨.refl _ _ _ _, .refl c _⟩
    cases hres : kvInitBlocks c (List.range c.blkNums) s.boot [] with
    | mk t unclean =>
    rw [hres] at hblocks
    simp only [hres, Option.some.injEq] at hinit
    obtain ⟨hkilled, hmarks⟩ := hblocks.content
    obtain rfl := InitLaid.unclean_nil h hblocks hmarks
    have hEt := hkilled.content_same hE hf hblocks.laid.flashLaid
    rw [← hinit, List.foldl_nil]
    split
    case isTrue hzero =>
      have hnil : Function.update ns 0 [] 0 = [] := Function.update_self _ _ _
      have hformat : InitLaid c (Function.update ns 0 []) (fun _ => True) s.boot c.blkNums
          (kvBlockFormat c t 0) [] := hblocks.giveUpFirst hn _ trivial hzero
      have hEf := hEt.format hblocks.laid.flashLaid hn hnil (fun j hj => Function.update_of_ne hj _ _)
        fun j _ hj a ha hb => kvBlockFormat_other hj (by unfold blkFirst at ha; omega) hb
      obtain ⟨hl, -, hsame⟩ := hformat.finish (Nat.succ_pos _)
      refine ⟨_, hl, E, ?_, hd, hrep⟩
      refine (hEf.same hformat.laid.flashLaid hl.laid.flashLaid hsame).congr fun pos key val => ?_
      exact and_iff_left_of_imp fun he => hr.first_empty hn h hE hblocks hmarks hzero he
    case isFalse hpos =>
      obtain ⟨hl, -, hsame⟩ := hblocks.finish (Nat.pos_of_ne_zero hpos)
      exact ⟨ns, hl, E, hEt.same hblocks.laid.flashLaid hl.laid.flashLaid hsame, hd, hrep⟩

/-- **an act of a run**, with a map that a reboot keeps. -/
theorem Layout.rebootStep {a : KvAct} (h : Layout c ns s) (hn : 0 < c.blkNums) (ha : RebootSafe c s a)
    (hm : Holds c ns s.flash m) (hstep : kvActStep c s a = some s') :
    ∃ ns' m', Layout c ns' s' ∧ Holds c ns' s'.flash m' ∧ (a = .boot → m' = m) := by
  cases a with
  | call op =>
    change kvStep c s op = some s' at hstep
    rw [kvStep_eq] at hstep
    obtain ⟨⟨r, t⟩, hcall, rfl⟩ := Option.map_eq_some_iff.1 hstep
    obtain ⟨ns', hl, -, hmap⟩ := h.call (fun key val hop => by subst hop; exact ha) hcall
    obtain ⟨m', -, hm'⟩ := hmap m hm
    exact ⟨ns', m', hl, hm', nofun⟩
  | boot =>
    obtain ⟨ns', hl, hm'⟩ := h.reboot hn ha.1 ha.2 hm hstep
    exact ⟨ns', m, hl, hm', fun _ => rfl⟩

/-- The layout and the map along a run. -/
theorem Layout.rebootRun {acts : List KvAct} (h : Layout c ns s) (hn : 0 < c.blkNums)
    (hmeet : StepsMeet (kvActStep c) (RebootSafe c) s acts) (hm : Holds c ns s.flash m)
    (hrun : runSteps (kvActStep c) s acts = some s') : ∃ ns' m', Layout c ns' s' ∧ Holds c ns' s'.flash m' := by
  refine runSteps_inv (I := fun t => ∃ ns' m', Layout c ns' t ∧ Holds c ns' t.flash m')
    (fun t a t' ht ha hstep => ?_) ⟨ns, m, h, hm⟩ hmeet hrun
  obtain ⟨ns', m', hl, hm'⟩ := ht
  obtain ⟨ns'', m'', hl', hm'', -⟩ := hl.rebootStep hn ha hm' hstep
  exact ⟨ns'', m'', hl', hm''⟩

end Reboot

/-- **Reboots keep the map.** In every run in which no key is empty and every reboot is safe, what
`kv_item_get` finds after a reboot is what it found before. -/
theorem reboot_keeps {c : KvConf} (hn : 2 ≤ c.blkNums) {s₀ : KvMgr} (hinit : kvInit c erasedPartition = some s₀)
    {acts : List KvAct} (hmeet : StepsMeet (kvActStep c) (RebootSafe c) s₀ acts) :
    ∀ pre s s', pre ++ [.boot] <+: acts → runSteps (kvActStep c) s₀ pre = some s →
      kvInit c s.boot = some s' → kvMap c s' = kvMap c s := by
  intro pre s s' hpre hrun hboot
  obtain ⟨rest, rfl⟩ := hpre
  rw [List.append_assoc] at hmeet
  obtain ⟨hmeet, hsafe, -⟩ := hmeet.split hrun
  have hl := layout_nil (by omega) hinit
  obtain ⟨ns, m, hls, hm⟩ := hl.rebootRun (by omega) hmeet (holds_empty c s₀.flash) hrun
  obtain ⟨ns', hls', hm'⟩ := hls.reboot (by omega) hsafe.1 hsafe.2 hm hboot
  rw [hls.kvMap_eq hm, hls'.kvMap_eq hm']

/-- Two keys, another value for one of them, the other one deleted, a reboot, a set, a collection, and a reboot. -/
def rebootedRun : List KvAct :=
  [.call (.set [0x61] [1, 2, 3]), .call (.set [0x62] [4]), .call (.set [0x61] [5]), .call (.del [0x62]), .boot,
    .call (.set [0x62] [6, 7]), .call .gc, .boot]

/-- A run with a reboot that keeps the map. -/
theorem reboot_keeps_rebooted : ∃ s₀ s s', kvInit smallConf erasedPartition = some s₀ ∧
    runSteps (kvActStep smallConf) s₀ (rebootedRun.take 7) = some s ∧ kvInit smallConf s.boot = some s' ∧
    kvMap smallConf s [0x61] = some [5] ∧ kvMap smallConf s' = kvMap smallConf s := by
  have hmeet : ((kvInit smallConf erasedPartition).map fun s =>
      decide (StepsMeet (kvActStep smallConf) (RebootSafe smallConf) s rebootedRun)) = some true := by
    decide +kernel
  have hlast : (((kvInit smallConf erasedPartition).bind fun s =>
      runSteps (kvActStep smallConf) s (rebootedRun.take 7)).map fun s =>
        (kvMap smallConf s [0x61], (kvInit smallConf s.boot).isSome)) = some (some [5], true) := by
    decide +kernel
  obtain ⟨s, hboth, hs⟩ := Option.map_eq_some_iff.1 hlast
  obtain ⟨s₀, hinit, hrun⟩ := Option.bind_eq_some_iff.1 hboth
  rw [hinit, Option.map_some, Option.some.injEq, decide_eq_true_eq] at hmeet
  obtain ⟨hval, hsome⟩ := Prod.mk.injEq .. ▸ hs
  obtain ⟨s', hboot⟩ := Option.isSome_iff_exists.1 hsome
  exact ⟨s₀, s, s', hinit, hrun, hboot, hval,
    reboot_keeps (by decide) hinit hmeet _ s s' (by exact ⟨[], rfl⟩) hrun hboot⟩

/-- Two collections move the item of `[0x62]` to where the item of `[0x61]` was replaced. The offset of the new item
still points there, to bytes of the value that look like the header of an item of `[0x61]`. -/
def staleOffsetRun : List KvAct :=
  [.call (.set [0x64] (List.replicate 13 0)), .call (.set [0x61] [1]),
    .call (.set [0x62] (List.replicate 15 0 ++ [0x49, 0xEE, 0, 1, 0, 0, 0, 0, 0x61])), .call (.set [0x61] [2]),
    .call (.del [0x64]), .call .gc, .call (.set [0x64] (List.replicate 13 0)), .call (.del [0x64]), .call .gc]

-- The reboot writes the state byte of the item that it takes these bytes for.
example : ((kvInit smallConf erasedPartition).bind fun s₀ =>
    (runSteps (kvActStep smallConf) s₀ staleOffsetRun).bind fun s =>
      (kvInit smallConf s.boot).map fun s' =>
        (kvMap smallConf s [0x62] == kvMap smallConf s' [0x62], (kvMap smallConf s' [0x62]).map (·.drop 15))) =
    some (false, some [0x49, 0, 0, 1, 0, 0, 0, 0, 0x61]) := by
  decide +kernel

end GenieSdk.Analysis.Kv
