import GenieSdk.Analysis.KvEntries

/-!
# The collection

A collection copies what is left of a dirty block into a clean one, item by item (`Copied`), and formats the
block. What is copied fits, since it came from a block.
-/

set_option autoImplicit false

namespace GenieSdk.Analysis.Kv

open GenieSdk.Lib
open GenieSdk.Model

section Format

variable {c : KvConf} {k i a : ℕ} {ns : ℕ → List ℕ} {s : KvMgr}

/-- A formatted block. -/
theorem kvBlockFormat_flash (c : KvConf) (s : KvMgr) (i a : ℕ) : (kvBlockFormat c s i).flash a =
    if i * c.blkSize ≤ a ∧ a < i * c.blkSize + 4 then
      [blkMagicNum, blkStateClean, 0, 0].getD (a - i * c.blkSize) 0
    else if i * c.blkSize ≤ a ∧ a < blkStop c i then 0xFF
    else s.flash a := rfl

/-- The other blocks. -/
theorem kvBlockFormat_other {j : ℕ} (hji : j ≠ i) (hlo : j * c.blkSize ≤ a) (hhi : a < blkStop c j) :
    (kvBlockFormat c s i).flash a = s.flash a := by
  have hsize := blkSize_ge c
  have hapart := blkStop_le hji (c := c)
  rw [kvBlockFormat_flash, if_neg (by unfold blkStop at *; omega), if_neg (by omega)]

/-- A block that is formatted has all its space. -/
theorem kvBlockFormat_space (c : KvConf) (s : KvMgr) (i j : ℕ) :
    ((kvBlockFormat c s i).blockInfo j).space =
      if j = i then c.blkSize - blkHdrSize else (s.blockInfo j).space := by
  unfold kvBlockFormat KvMgr.setInfo
  dsimp only
  split <;> rfl

/-- And no items. -/
theorem blockOn_format (c : KvConf) (s : KvMgr) (i : ℕ) : BlockOn c (kvBlockFormat c s i).flash i [] := by
  have hsize := blkSize_ge c
  have hfirst : i * c.blkSize + 4 = blkFirst c i := rfl
  refine ⟨?_, .inr (.inl ?_), trivial, ?_, fun a ha hb => ?_⟩
  · rw [kvBlockFormat_flash, if_pos (by omega), Nat.sub_self]
    rfl
  · rw [kvBlockFormat_flash, if_pos (by omega), Nat.add_sub_cancel_left]
    rfl
  · rw [List.sum_nil]
    unfold blkStop
    omega
  · rw [List.sum_nil] at ha
    rw [kvBlockFormat_flash, if_neg (by omega), if_pos (by omega)]

/-- Formatting a block obeys the flash. -/
theorem obeys_format (s : KvMgr) (hi : i < c.blkNums) : Obeys c s (kvBlockFormat c s i) := by
  have hsize := blkSize_ge c
  let e := kvOsPartitionErase s (i * c.blkSize) c.blkSize
  have herase : Obeys c s e := obeys_doFlash (.erase hi) rfl rfl
  have hwrite : Lawful c e.flash (.write (i * c.blkSize) [blkMagicNum, blkStateClean, 0, 0]) := by
    refine .fresh hi (le_refl _) ?_ fun k hk => ?_
    · unfold blkStop
      simp only [List.length_cons, List.length_nil]
      omega
    · simp only [List.length_cons, List.length_nil] at hk
      change (if i * c.blkSize ≤ i * c.blkSize + k ∧ i * c.blkSize + k < i * c.blkSize + c.blkSize then
        0xFF else _) = _
      rw [if_pos (by omega)]
  exact herase.trans (obeys_doFlash hwrite rfl rfl)

/-- **A block is formatted.** It may be the first one whose state is not known. -/
theorem LaidOut.format (h : LaidOut c k ns s) {k' : ℕ} (hk : k ≤ k') (hk' : k' ≤ c.blkNums) (hi : i < k')
    (hnext : ∀ j, k ≤ j → j < k' → j = i) :
    LaidOut c k' (Function.update ns i []) (kvBlockFormat c s i) := by
  have hsize := blkSize_ge c
  have hout : ∀ j, j ≠ i → ∀ a, j * c.blkSize ≤ a → a < blkStop c j →
      (kvBlockFormat c s i).flash a = s.flash a := fun j hj a ha hb => kvBlockFormat_other hj ha hb
  refine ⟨hk', fun j hj => ?_, fun j hj => ?_, fun j hj => ?_⟩
  · by_cases hji : j = i
    · subst hji
      rw [Function.update_self]
      exact .inl (blockOn_format c s j)
    · rw [Function.update_of_ne hji]
      rcases h.blocks j hj with hb | ⟨hkj, hb⟩
      · exact .inl (hb.congr (hout j hji))
      · refine .inr ⟨?_, hb.congr (hout j hji)⟩
        by_contra hlt
        exact hji (hnext j hkj (by omega))
  · rw [kvBlockFormat_state]
    by_cases hji : j = i
    · subst hji
      rw [if_pos rfl, kvBlockFormat_flash, if_pos (by omega), Nat.add_sub_cancel_left]
      rfl
    · have hjk : j < k := by
        by_contra hlt
        exact hji (hnext j (by omega) hj)
      rw [if_neg hji, hout j hji _ (by omega) (by unfold blkStop; omega)]
      exact h.mark j hjk
  · rw [kvBlockFormat_state, if_neg (by omega)]
    exact h.blank j (by omega)

end Format

section Collect

variable {c : KvConf} {i gcIdx pos n : ℕ} {ns : ℕ → List ℕ} {ms : List ℕ} {s t : KvMgr} {done : List ℕ}

/-- The items up to here are passed, and what was left of them is in the block `gcIdx`. -/
structure Copied (c : KvConf) (ns : ℕ → List ℕ) (gcIdx : ℕ) (s : KvMgr) (done ms : List ℕ)
    (t : KvMgr) : Prop where
  laid : LaidOut c c.blkNums (Function.update ns gcIdx ms) t
  obeys : Obeys c s t
  writePos : t.writePos = blkFirst c gcIdx + ms.sum
  le : ms.sum ≤ done.sum
  state : ∀ j, (t.blockInfo j).state = (s.blockInfo j).state
  space : ∀ j, (t.blockInfo j).space =
    if j = gcIdx then blkStop c gcIdx - (blkFirst c gcIdx + ms.sum) else (s.blockInfo j).space
  same : ∀ a, a < blkFirst c gcIdx ∨ blkStop c gcIdx ≤ a → t.flash a = s.flash a

/-- **One item is copied.** -/
theorem Copied.item (h : Copied c ns gcIdx s done ms t) (hgc : gcIdx < c.blkNums)
    (hroom : done.sum + n < c.blkSize - blkHdrSize) (hdr : HdrAt c t.flash pos n) :
    ∃ item t', itemGcCb c t (itemAt c t.flash pos) = (.cont, item, t') ∧
      t'.flash = writeBytes t.flash (blkFirst c gcIdx + ms.sum) (readBytes t.flash pos n) ∧
      Copied c ns gcIdx s (done ++ [n]) (ms ++ [n]) t' := by
  have hsize := blkSize_ge c
  have hstop := blkStop_eq c gcIdx
  have hle := h.le
  have hlen : kvAlign (itemHdrSize c + (itemAt c t.flash pos).len) = n := by
    rw [hdr.size, Nat.add_assoc]
    rfl
  have hsum : (ms ++ [n]).sum = ms.sum + n := by simp
  have hfit : blkFirst c gcIdx + ms.sum + n < blkStop c gcIdx := by
    unfold blkHdrSize at hroom hstop
    omega
  have hidx : (blkFirst c gcIdx + ms.sum + n) / c.blkSize = gcIdx := div_blkSize (by omega) hfit
  have hmax := blkSize_lt hgc
  have hspace : kvSizeSub c (t.blockInfo gcIdx).space n =
      blkStop c gcIdx - (blkFirst c gcIdx + (ms ++ [n]).sum) := by
    rw [h.space, if_pos rfl, kvSizeSub_eq (by omega) (by unfold blkHdrSize at *; omega), hsum]
    omega
  let u : KvMgr := { kvOsPartitionWrite t (blkFirst c gcIdx + ms.sum) (readBytes t.flash pos n) with
    writePos := blkFirst c gcIdx + ms.sum + n }
  have hread := length_readBytes t.flash pos n
  have hdr' : HdrAt c (writeBytes t.flash (blkFirst c gcIdx + ms.sum) (readBytes t.flash pos n))
      (blkFirst c gcIdx + ms.sum) (readBytes t.flash pos n).length := by
    rw [hread]
    refine hdr.congr fun k hk => ?_
    have hlt := hdr.hdr_lt
    rw [writeBytes_inside _ _ _ _ (by omega) (by omega), Nat.add_sub_cancel_left,
      getD_readBytes _ _ _ _ _ (by omega)]
  obtain ⟨hl, ho⟩ := h.laid.append u hgc (by rw [Function.update_self])
    (by rw [hread]; exact hfit) hdr' rfl rfl fun _ => rfl
  rw [hread, Function.update_self, Function.update_idem] at hl
  refine ⟨itemAt c t.flash pos, u.setSpace gcIdx (blkStop c gcIdx - (blkFirst c gcIdx + (ms ++ [n]).sum)),
    ?_, rfl, ⟨hl.of_eq rfl fun j => setSpace_state u gcIdx j _, ?_, ?_, ?_, fun j => ?_, fun j => ?_,
      fun a ha => ?_⟩⟩
  · have hcall : ∀ len, kvAlign (itemHdrSize c + (itemAt c t.flash pos).len) = len →
        itemGcCb c t (itemAt c t.flash pos) = (.cont, itemAt c t.flash pos,
          { kvOsPartitionWrite t t.writePos (readBytes t.flash pos len) with
            writePos := t.writePos + len }.setSpace ((t.writePos + len) / c.blkSize)
            (kvSizeSub c (t.blockInfo ((t.writePos + len) / c.blkSize)).space len)) := by
      rintro _ rfl
      rfl
    rw [hcall n hlen, h.writePos, hidx, hspace]
  · exact (h.obeys.trans ho).trans (obeys_of_eq rfl rfl)
  · change blkFirst c gcIdx + ms.sum + n = _
    omega
  · rw [hsum]
    simp only [List.sum_append, List.sum_singleton]
    omega
  · rw [setSpace_state]
    exact h.state j
  · rw [setSpace_space]
    split
    case isTrue => rfl
    case isFalse hj => exact (h.space j).trans (if_neg hj)
  · refine (writeBytes_outside _ _ _ _ ?_).trans (h.same a ha)
    rw [hread]
    omega

/-- The entries `G` are those that were copied. -/
structure CopiedEntries (c : KvConf) (ns : ℕ → List ℕ) (gcIdx i : ℕ) (E : Entries) (done ms : List ℕ)
    (t : KvMgr) (G : Entries) : Prop where
  content : Content c (Function.update ns gcIdx ms) t.flash fun pos key val => E pos key val ∨ G pos key val
  inside : ∀ pos key val, G pos key val → blkFirst c gcIdx ≤ pos ∧ pos < blkStop c gcIdx
  moved : ∀ key val, (∃ pos, G pos key val) ↔
    ∃ pos, E pos key val ∧ blkFirst c i ≤ pos ∧ pos < blkFirst c i + done.sum
  distinct : KeysDistinct G

/-- What was copied before, or the item that is next. -/
theorem CopiedEntries.passed {E G : Entries} {rest : List ℕ} {key val : List UInt8}
    (h : CopiedEntries c ns gcIdx i E done ms t G) (hrows : FlashLaid c (Function.update ns gcIdx ms) t.flash)
    (hi : i < c.blkNums) (hne : i ≠ gcIdx) (hns : ns i = done ++ n :: rest) (he : E pos key val)
    (hlo : blkFirst c i ≤ pos) (hhi : pos < blkFirst c i + (done ++ [n]).sum) :
    pos < blkFirst c i + done.sum ∨ pos = blkFirst c i + done.sum :=
  h.content.passed hrows hi ((Function.update_of_ne hne _ _).trans hns) (.inl he) hlo hhi

/-- A deleted item is not copied. -/
theorem CopiedEntries.dead {E G : Entries} {rest : List ℕ} (h : CopiedEntries c ns gcIdx i E done ms t G)
    (hrows : FlashLaid c (Function.update ns gcIdx ms) t.flash) (hi : i < c.blkNums) (hne : i ≠ gcIdx)
    (hns : ns i = done ++ n :: rest) (hdead : t.flash (blkFirst c i + done.sum + 1) = itemStateDelete) :
    CopiedEntries c ns gcIdx i E (done ++ [n]) ms t G := by
  refine ⟨h.content, h.inside, fun key val => (h.moved key val).trans (exists_congr fun pos =>
    and_congr_right fun he => and_congr_right fun hlo => ⟨fun hlt => ?_, fun hhi => ?_⟩), h.distinct⟩
  · rw [List.sum_append]
    omega
  · rcases h.passed hrows hi hne hns he hlo hhi with hlt | heq
    · exact hlt
    · obtain ⟨-, -, -, -, hentry⟩ := (h.content.live _ _ _).2 (.inl he)
      have hnormal := hentry.normal
      rw [heq, hdead] at hnormal
      exact absurd hnormal (by decide)

/-- **An entry is copied.** -/
theorem CopiedEntries.item {E G : Entries} {rest : List ℕ} {t' : KvMgr}
    (h : CopiedEntries c ns gcIdx i E done ms t G) (hd : KeysDistinct E)
    (hrows : FlashLaid c (Function.update ns gcIdx ms) t.flash)
    (hrows' : FlashLaid c (Function.update ns gcIdx (ms ++ [n])) t'.flash) (hgc : gcIdx < c.blkNums)
    (hi : i < c.blkNums) (hne : i ≠ gcIdx) (hns : ns i = done ++ n :: rest)
    (hnormal : t.flash (blkFirst c i + done.sum + 1) = itemStateNormal)
    (hflash : t'.flash = writeBytes t.flash (blkFirst c gcIdx + ms.sum)
      (readBytes t.flash (blkFirst c i + done.sum) n)) :
    ∃ G', CopiedEntries c ns gcIdx i E (done ++ [n]) (ms ++ [n]) t' G' := by
  have hplace : PlaceOf c (Function.update ns gcIdx ms) i (blkFirst c i + done.sum) n :=
    ⟨done, rest, (Function.update_of_ne hne _ _).trans hns, rfl⟩
  obtain ⟨hlo, hhi, hdr⟩ := hrows.bounds hi hplace
  have hsum : (done ++ [n]).sum = done.sum + n := by simp
  have hlen := length_readBytes t.flash (blkFirst c i + done.sum) n
  obtain ⟨-, hfits, -⟩ := hrows'.bounds (n := n) hgc ⟨ms, [], Function.update_self _ _ _, rfl⟩
  have hlt := hdr.hdr_lt
  -- the entry that the item is
  obtain ⟨key, val, heg⟩ := h.content.sound i hi _ n hplace hnormal
  have he : E (blkFirst c i + done.sum) key val := by
    refine heg.resolve_right fun hg => ?_
    obtain ⟨hlo', hhi'⟩ := h.inside _ _ _ hg
    exact hne ((div_blkSize hlo (by omega)).symm.trans (div_blkSize hlo' hhi'))
  obtain ⟨-, -, -, -, hentry⟩ := (h.content.live _ _ _).2 (.inl he)
  have hcopy : EntryAt c t'.flash (blkFirst c gcIdx + ms.sum) key val := by
    refine hentry.move hdr fun k hk => ?_
    rw [hflash, writeBytes_inside _ _ _ _ (by omega) (by omega), Nat.add_sub_cancel_left,
      getD_readBytes _ _ _ _ _ hk]
  have hcontent := h.content.append hrows hrows' hgc (n := n) (p := blkFirst c gcIdx + ms.sum)
    (by rw [Function.update_self, Function.update_self])
    (fun j hj => by rw [Function.update_of_ne hj, Function.update_of_ne hj])
    (by rw [Function.update_self]) hcopy fun a ha => by
      rw [hflash]
      exact writeBytes_outside _ _ _ _ (by omega)
  refine ⟨fun pos k v => G pos k v ∨ pos = blkFirst c gcIdx + ms.sum ∧ k = key ∧ v = val,
    hcontent.congr fun _ _ _ => or_assoc, ?_, fun k v => ⟨?_, ?_⟩, ?_⟩
  · rintro pos k v (hg | ⟨rfl, -, -⟩)
    · exact h.inside pos k v hg
    · omega
  · rintro ⟨pos, hg | ⟨-, rfl, rfl⟩⟩
    · obtain ⟨pos', he', hlo', hhi'⟩ := (h.moved k v).1 ⟨pos, hg⟩
      exact ⟨pos', he', hlo', by omega⟩
    · exact ⟨_, he, hlo, by omega⟩
  · rintro ⟨pos, he', hlo', hhi'⟩
    rcases h.passed hrows hi hne hns he' hlo' hhi' with hlt' | rfl
    · obtain ⟨pos', hg⟩ := (h.moved k v).2 ⟨pos, he', hlo', hlt'⟩
      exact ⟨pos', .inl hg⟩
    · obtain ⟨rfl, rfl⟩ := h.content.unique (.inl he') (.inl he)
      exact ⟨_, .inr ⟨rfl, rfl, rfl⟩⟩
  · -- the copies from before come from items before this one
    have hold : ∀ {pos : ℕ} {v : List UInt8}, ¬ G pos key v := fun {pos v} hg => by
      obtain ⟨pos', he', -, hhi'⟩ := (h.moved key v).1 ⟨pos, hg⟩
      obtain rfl := hd he' he
      exact absurd hhi' (lt_irrefl _)
    rintro pos pos' k v v' (hg | ⟨rfl, rfl, rfl⟩) (hg' | ⟨rfl, hk, hv⟩)
    · exact h.distinct hg hg'
    · exact absurd (hk ▸ hg) hold
    · exact absurd hg' hold
    · rfl

/-- Nothing is copied yet. -/
theorem Layout.copied (h : Layout c ns s) (hgc : gcIdx < c.blkNums)
    (hst : (s.blockInfo gcIdx).state = blkStateClean) :
    Copied c ns gcIdx s [] [] { s with writePos := blkFirst c gcIdx } := by
  have hnil := h.clean gcIdx hgc hst
  have hupd : Function.update ns gcIdx [] = ns := by rw [← hnil, Function.update_eq_self]
  refine ⟨?_, obeys_of_eq rfl rfl, rfl, le_refl _, fun _ => rfl, fun j => ?_, fun _ _ => rfl⟩
  · rw [hupd]
    exact h.laid.of_eq rfl fun _ => rfl
  · split
    case isTrue hj =>
      rw [hj]
      have := h.space gcIdx hgc
      rw [hnil] at this
      exact this
    case isFalse => rfl

/-- A dirty block stays as it is. -/
theorem kvMarkDirty_of_dirty (h : (s.blockInfo i).state = blkStateDirty) : kvMarkDirty c s i = s := by
  unfold kvMarkDirty
  rw [if_neg]
  rw [h]
  decide

/-- No entry is copied yet. -/
theorem Layout.copiedEntries {E : Entries} (h : Layout c ns s) (hgc : gcIdx < c.blkNums)
    (hst : (s.blockInfo gcIdx).state = blkStateClean) (hE : Content c ns s.flash E) :
    CopiedEntries c ns gcIdx i E [] [] { s with writePos := blkFirst c gcIdx } fun _ _ _ => False := by
  have hupd : Function.update ns gcIdx [] = ns := by rw [← h.clean gcIdx hgc hst, Function.update_eq_self]
  refine ⟨?_, fun _ _ _ hg => hg.elim, fun key val => ⟨fun ⟨_, hg⟩ => hg.elim, ?_⟩,
    fun _ _ _ _ _ hg => hg.elim⟩
  · rw [hupd]
    exact hE.congr fun _ _ _ => (or_iff_left not_false).symm
  · rintro ⟨pos, -, hlo, hhi⟩
    rw [List.sum_nil] at hhi
    omega

/-- What is copied when a block has been passed: its entries, whatever the entries are. -/
def CopiesEntries (c : KvConf) (ns : ℕ → List ℕ) (gcIdx i : ℕ) (s : KvMgr) (done ms : List ℕ) (t : KvMgr) :
    Prop :=
  ∀ E, Content c ns s.flash E → KeysDistinct E → ∃ G, CopiedEntries c ns gcIdx i E done ms t G

/-- **A dirty block is copied.** -/
theorem Layout.copyAll (h : Layout c ns s) (hgc : gcIdx < c.blkNums) (hi : i < c.blkNums)
    (hst : (s.blockInfo gcIdx).state = blkStateClean) (hdirty : (s.blockInfo i).state = blkStateDirty) :
    ∃ ms t, Copied c ns gcIdx s (ns i) ms t ∧ CopiesEntries c ns gcIdx i s (ns i) ms t ∧
      kvItemTraverse c (itemGcCb c) { s with writePos := blkFirst c gcIdx } i =
        (none, kvTraverseEnd c t i (blkFirst c i + (ns i).sum)) := by
  have hne : i ≠ gcIdx := by
    rintro rfl
    rw [hst] at hdirty
    exact absurd hdirty (by decide)
  have hfits := (h.laid.block i hi).fits
  have hstop := blkStop_eq c i
  refine scan_rule
    (J := fun done t => ∃ ms, Copied c ns gcIdx s done ms t ∧ CopiesEntries c ns gcIdx i s done ms t)
    (Q := fun r => ∃ ms t, Copied c ns gcIdx s (ns i) ms t ∧ CopiesEntries c ns gcIdx i s (ns i) ms t ∧
      r = (none, kvTraverseEnd c t i (blkFirst c i + (ns i).sum)))
    ⟨hfits, ?_, ?_, ?_, ?_, ?_⟩ ⟨[], h.copied hgc hst, fun E hE _ => ⟨_, h.copiedEntries hgc hst hE⟩⟩
  · rintro done n rest t hns ⟨ms, hJ, -⟩
    have hb := hJ.laid.block i hi
    rw [Function.update_of_ne hne, hns] at hb
    exact hb.hdrAt
  · rintro t ⟨ms, hJ, -⟩
    have hb := hJ.laid.block i hi
    rw [Function.update_of_ne hne] at hb
    exact hb.rest
  · rintro done n rest t hns ⟨ms, hJ, hG⟩ hdead
    rw [kvMarkDirty_of_dirty ((hJ.state i).trans hdirty)]
    refine ⟨ms, ⟨hJ.laid, hJ.obeys, hJ.writePos, hJ.le.trans ?_, hJ.state, hJ.space, hJ.same⟩, ?_⟩
    · simp
    · intro E hE hd
      obtain ⟨G, hG⟩ := hG E hE hd
      exact ⟨G, hG.dead hJ.laid.flashLaid hi hne hns hdead⟩
  · rintro done n rest t hns ⟨ms, hJ, hG⟩ hnormal res item' t' hcall
    have hb := hJ.laid.block i hi
    rw [Function.update_of_ne hne, hns] at hb
    have hroom : done.sum + n < c.blkSize - blkHdrSize := by
      have := hb.fits
      rw [List.sum_append, List.sum_cons] at this
      unfold blkHdrSize at *
      omega
    obtain ⟨item, t'', heq, hflash, hJ'⟩ := hJ.item hgc hroom hb.hdrAt
    rw [heq] at hcall
    cases hcall
    refine ⟨fun _ => ⟨_, hJ', fun E hE hd => ?_⟩, fun hc => absurd rfl hc⟩
    obtain ⟨G, hG⟩ := hG E hE hd
    exact hG.item hd hJ.laid.flashLaid hJ'.laid.flashLaid hgc hi hne hns hnormal hflash
  · rintro t ⟨ms, hJ, hG⟩
    exact ⟨ms, t, hJ, hG, rfl⟩

end Collect

section Task

variable {c : KvConf} {i gcIdx : ℕ} {ns : ℕ → List ℕ} {ms : List ℕ} {s s' t : KvMgr}

/-- **A collection of block `i`.** -/
theorem Layout.collect (h : Layout c ns s) (hgc : gcIdx < c.blkNums) (hi : i < c.blkNums)
    (hst : (s.blockInfo gcIdx).state = blkStateClean) (hdirty : (s.blockInfo i).state = blkStateDirty)
    (hcopied : Copied c ns gcIdx s (ns i) ms t)
    (htrav : kvItemTraverse c (itemGcCb c) { s with writePos := blkFirst c gcIdx } i =
      (none, kvTraverseEnd c t i (blkFirst c i + (ns i).sum))) :
    let s' := kvGcCollect c gcIdx { s with writePos := blkFirst c gcIdx } i
    Layout c (Function.update (Function.update ns gcIdx ms) i []) s' ∧ Obeys c s s' ∧
      ∀ j < c.blkNums, j ≠ i → ∀ a, blkFirst c j ≤ a → a < blkStop c j → s'.flash a = t.flash a := by
  have hne : gcIdx ≠ i := by
    rintro rfl
    rw [hst] at hdirty
    exact absurd hdirty (by decide)
  have hfits := (h.laid.block i hi).fits
  have hstop := blkStop_eq c i
  have hstop' := blkStop_eq c gcIdx
  have hle := hcopied.le
  have hfit : blkFirst c gcIdx + ms.sum < blkStop c gcIdx := by omega
  let e := kvTraverseEnd c t i (blkFirst c i + (ns i).sum)
  have hlaid : LaidOut c c.blkNums (Function.update ns gcIdx ms) e :=
    hcopied.laid.of_eq rfl fun j => setSpace_state t i j _
  let b := kvBlockFormat c e i
  have hb := hlaid.format (le_refl _) (le_refl _) hi fun j hj hj' => by omega
  have hbst : ∀ j, (b.blockInfo j).state = if j = i then blkStateClean else (s.blockInfo j).state := by
    intro j
    rw [kvBlockFormat_state]
    split
    case isTrue => rfl
    case isFalse => exact (setSpace_state t i j _).trans (hcopied.state j)
  have hbgc : (b.blockInfo gcIdx).state = blkStateClean := by rw [hbst, if_neg hne, hst]
  obtain ⟨hm, ho⟩ := hb.marked blkStateUsed hgc (show BlkMove (b.blockInfo gcIdx).state _ from
    hbgc ▸ .use)
  have hwp : b.writePos = blkFirst c gcIdx + ms.sum := hcopied.writePos
  have hidx : b.writePos / c.blkSize = gcIdx := by
    rw [hwp]
    exact div_blkSize (Nat.le_add_right _ _) hfit
  have hend : kvGcCollect c gcIdx { s with writePos := blkFirst c gcIdx } i =
      { kvMarkBlk c b gcIdx blkStateUsed with cleanBlkNums := b.cleanBlkNums - 1 } := by
    unfold kvGcCollect
    rw [htrav]
    change { (kvStateSet b (b.writePos / c.blkSize * c.blkSize) blkStateUsed).setState gcIdx blkStateUsed with
      cleanBlkNums := b.cleanBlkNums - 1 } = _
    rw [hidx]
    rfl
  have hstate : ∀ j, ((kvMarkBlk c b gcIdx blkStateUsed).blockInfo j).state =
      if j = gcIdx then blkStateUsed else (b.blockInfo j).state := fun j => setState_state _ gcIdx j _
  intro s'
  have hs' : s' = { kvMarkBlk c b gcIdx blkStateUsed with cleanBlkNums := b.cleanBlkNums - 1 } := hend
  clear_value s'
  subst hs'
  refine ⟨⟨hm.of_eq rfl fun _ => rfl, fun j hj hc => ?_, fun j hj => ?_, gcIdx, hgc, ?_, ?_⟩, ?_,
    fun j hj hji a ha hb => ?_⟩
  · change ((kvMarkBlk c b gcIdx blkStateUsed).blockInfo j).state = _ at hc
    rw [hstate] at hc
    by_cases hji : j = i
    · rw [hji, Function.update_self]
    · rw [Function.update_of_ne hji]
      split at hc
      · exact absurd hc (by decide)
      next hjgc =>
        rw [hbst, if_neg hji] at hc
        rw [Function.update_of_ne hjgc]
        exact h.clean j hj hc
  · change ((kvMarkBlk c b gcIdx blkStateUsed).blockInfo j).space = _
    have hspace : ((kvMarkBlk c b gcIdx blkStateUsed).blockInfo j).space = (b.blockInfo j).space :=
      setState_space _ gcIdx j _
    rw [hspace, kvBlockFormat_space]
    by_cases hji : j = i
    · rw [if_pos hji, hji, Function.update_self, List.sum_nil]
      unfold blkHdrSize at *
      omega
    · rw [if_neg hji, Function.update_of_ne hji]
      change ((t.setSpace i _).blockInfo j).space = _
      rw [setSpace_space, if_neg hji, hcopied.space]
      by_cases hjgc : j = gcIdx
      · rw [if_pos hjgc, hjgc, Function.update_self]
      · rw [if_neg hjgc, Function.update_of_ne hjgc]
        exact h.space j hj
  · change ((kvMarkBlk c b gcIdx blkStateUsed).blockInfo gcIdx).state ≠ _
    rw [hstate, if_pos rfl]
    decide
  · rw [Function.update_of_ne hne, Function.update_self]
    exact hwp
  · have hte : Obeys c t e := obeys_of_eq rfl rfl
    exact (((hcopied.obeys.trans hte).trans (obeys_format e hi)).trans ho).trans (obeys_of_eq rfl rfl)
  · refine (itemsSame_markBlk b gcIdx _ j hj a ha hb).trans ?_
    have hapart := blkStop_le hji (c := c)
    have hfirst : j * c.blkSize + 4 = blkFirst c j := rfl
    have hsize := blkSize_ge c
    change (kvBlockFormat c e i).flash a = _
    rw [kvBlockFormat_flash, if_neg (by unfold blkStop at *; omega), if_neg (by omega)]
    rfl

/-- **it loses nothing.** -/
theorem Layout.collect_holds {m : KvMap} (h : Layout c ns s) (hgc : gcIdx < c.blkNums) (hi : i < c.blkNums)
    (hst : (s.blockInfo gcIdx).state = blkStateClean) (hdirty : (s.blockInfo i).state = blkStateDirty)
    (hcopied : Copied c ns gcIdx s (ns i) ms t) (hentries : CopiesEntries c ns gcIdx i s (ns i) ms t)
    (htrav : kvItemTraverse c (itemGcCb c) { s with writePos := blkFirst c gcIdx } i =
      (none, kvTraverseEnd c t i (blkFirst c i + (ns i).sum))) (hm : Holds c ns s.flash m) :
    Holds c (Function.update (Function.update ns gcIdx ms) i [])
      (kvGcCollect c gcIdx { s with writePos := blkFirst c gcIdx } i).flash m := by
  have hne : i ≠ gcIdx := by
    rintro rfl
    rw [hst] at hdirty
    exact absurd hdirty (by decide)
  obtain ⟨-, -, hsame⟩ := h.collect hgc hi hst hdirty hcopied htrav
  obtain ⟨E, hE, hd, hr⟩ := hm
  obtain ⟨G, hG⟩ := hentries E hE hd
  have hrows := hcopied.laid.flashLaid
  have hfits := (h.laid.block i hi).fits
  have hnil : Function.update (Function.update ns gcIdx ms) i [] i = [] := Function.update_self _ _ _
  have hcontent := hG.content.format hrows hi hnil (fun j hj => Function.update_of_ne hj _ _) hsame
  refine ⟨_, hcontent, represents_moved hd hr hG.distinct (fun k v => (hG.moved k v).trans
    (exists_congr fun pos => and_congr_right fun he => and_congr_right fun hlo => ?_)) fun pos k v hg hin => ?_⟩
  · refine ⟨fun hlt => hlt.trans hfits, fun hlt => ?_⟩
    obtain ⟨n, hp, -⟩ := hE.place h.laid.flashLaid he hlo hlt
    exact hp.lt_sum (h.laid.block i hi)
  · obtain ⟨hlo, hhi⟩ := hG.inside pos k v hg
    exact hne ((div_blkSize hin.1 hin.2).symm.trans (div_blkSize hlo hhi))

/-- What a run of the collection does: nothing, or it collects a block. -/
theorem kvGcTask_cases (hI : ∀ i, c.blkNums ≤ i → (s.blockInfo i).state = 0) :
    kvGcTask c s = { s with gcTrigger := false } ∨
      ∃ gcIdx < c.blkNums, ∃ i < c.blkNums, (s.blockInfo gcIdx).state = blkStateClean ∧
        (s.blockInfo i).state = blkStateDirty ∧ kvGcTask c s =
          { kvGcCollect c gcIdx { s with writePos := blkFirst c gcIdx } i with gcTrigger := false } := by
  unfold kvGcTask
  dsimp only
  split
  · exact .inl rfl
  split
  · exact .inl rfl
  next gcIdx hfind =>
  split
  · next t hloop =>
    obtain ⟨i, hst, rfl⟩ := kvGcLoop_some hloop
    have hin : i < c.blkNums := by
      by_contra hout
      change (s.blockInfo i).state = _ at hst
      rw [hI i (not_lt.1 hout)] at hst
      exact absurd hst (by decide)
    refine .inr ⟨gcIdx, List.mem_range.1 (List.mem_of_find?_eq_some hfind), i, hin, ?_, hst, rfl⟩
    simpa using List.find?_some hfind
  · exact .inl rfl

/-- **A run of the collection** keeps the map. -/
theorem Layout.gcTask (h : Layout c ns s) :
    ∃ ns', Layout c ns' (kvGcTask c s) ∧ Obeys c s (kvGcTask c s) ∧
      ∀ m, Holds c ns s.flash m → Holds c ns' (kvGcTask c s).flash m := by
  rcases kvGcTask_cases (c := c) h.laid.blank with heq | ⟨gcIdx, hgc, i, hi, hst, hdirty, heq⟩
  · rw [heq]
    exact ⟨ns, h.of_eq rfl rfl rfl, obeys_of_eq rfl rfl, fun _ hm => hm⟩
  · rw [heq]
    obtain ⟨ms, t, hcopied, hentries, htrav⟩ := h.copyAll hgc hi hst hdirty
    obtain ⟨hl, ho, -⟩ := h.collect hgc hi hst hdirty hcopied htrav
    exact ⟨_, hl.of_eq rfl rfl rfl, ho.trans (obeys_of_eq rfl rfl),
      fun _ hm => h.collect_holds hgc hi hst hdirty hcopied hentries htrav hm⟩

end Task

end GenieSdk.Analysis.Kv
