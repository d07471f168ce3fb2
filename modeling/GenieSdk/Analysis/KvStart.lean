import GenieSdk.Analysis.KvOps

/-!
# The start of the store

`kv_init` formats the blocks of an erased partition. On blocks that hold rows of items it finds these rows:
it counts the clean blocks, finds the space in each block and a block to write to. A block that is marked
clean and holds items was being written by a collection. Before it goes on with no clean block `kv_init`
formats block 0.
-/

set_option autoImplicit false

namespace GenieSdk.Analysis.Kv

open GenieSdk.Lib
open GenieSdk.Model

/-- What is true of the items when all of them below an address have been read stays true while the blocks are
read. -/
structure InitKeeps (c : KvConf) (ns : ℕ → List ℕ) (I : ℕ → Mem → Prop) : Prop where
  same : ∀ {p : ℕ} {f f' : Mem}, I p f → ItemsSame c f f' → MarksKept c f f' → I p f'
  dead : ∀ {i n : ℕ} {f : Mem} {done rest : List ℕ}, i < c.blkNums → ns i = done ++ n :: rest →
    I (blkFirst c i + done.sum) f → f (blkFirst c i + done.sum + 1) = itemStateDelete →
    I (blkFirst c i + done.sum + n) f
  recover : ∀ {k i n : ℕ} {s : KvMgr} {done rest : List ℕ}, LaidOut c k ns s → i < k →
    ns i = done ++ n :: rest → I (blkFirst c i + done.sum) s.flash →
    s.flash (blkFirst c i + done.sum + 1) = itemStateNormal →
    I (blkFirst c i + done.sum + n) (itemRecoveryCb c s (itemAt c s.flash (blkFirst c i + done.sum))).2.2.flash
  next : ∀ {i : ℕ} {f : Mem}, i < c.blkNums → I (blkFirst c i + (ns i).sum) f → I (blkFirst c (i + 1)) f

/-- The first `k` blocks have been read, from `s₀` on. -/
structure InitLaid (c : KvConf) (ns : ℕ → List ℕ) (I : Mem → Prop) (s₀ : KvMgr) (k : ℕ) (s : KvMgr)
    (unclean : List ℕ) : Prop where
  laid : LaidOut c k ns s
  space : Spaced c k ns s
  counted : InitCounted c k s unclean
  holds : ∀ i < k, (s.blockInfo i).state = blkStateClean → (i ∈ unclean ↔ ns i ≠ [])
  obeys : Obeys c s₀ s
  content : I s.flash

section Blocks

variable {c : KvConf} {k i : ℕ} {ns : ℕ → List ℕ} {ms : List ℕ} {I : ℕ → Mem → Prop} {J : Mem → Prop}
  {s s' s₀ : KvMgr} {f : Mem} {unclean : List ℕ}

/-- The layout is that of the flash when `kv_init` begins. -/
theorem initLaid_boot (h : FlashLaid c ns s.flash) (hJ : J s.flash) :
    InitLaid c ns J s.boot 0 s.boot [] := by
  refine ⟨⟨Nat.zero_le _, fun i hi => ?_, ?_, fun _ _ => rfl⟩, ?_, initCounted_boot c s, ?_, .refl c _, hJ⟩
  · exact (h i hi).imp_right fun hb => ⟨Nat.zero_le i, hb⟩
  · exact fun _ hi => absurd hi (Nat.not_lt_zero _)
  · exact fun _ hi => absurd hi (Nat.not_lt_zero _)
  · exact fun _ hi => absurd hi (Nat.not_lt_zero _)

/-- A row of items takes space. -/
theorem BlockOn.eq_nil (h : BlockOn c f i ms) : ms = [] ↔ ms.sum = 0 := by
  refine ⟨fun hnil => by rw [hnil, List.sum_nil], fun hsum => ?_⟩
  cases ms with
  | nil => rfl
  | cons n ms =>
    have hlt := h.laid.1.hdr_lt
    rw [List.sum_cons] at hsum
    omega

/-- The state of the next block is read. -/
theorem LaidOut.read (h : LaidOut c k ns s) (hk : k < c.blkNums) (hb : BlockOn c s.flash k (ns k)) :
    LaidOut c (k + 1) ns (s.setState k (s.flash (k * c.blkSize + 1))) := by
  refine ⟨hk, fun j hj => ?_, fun j hj => ?_, fun j hj => ?_⟩
  · rcases h.blocks j hj with hbj | ⟨hkj, hbj⟩
    · exact .inl hbj
    · by_cases hjk : j = k
      · exact .inl (hjk ▸ hb)
      · exact .inr ⟨by omega, hbj⟩
  · rw [setState_state]
    split
    case isTrue hjk => rw [hjk]; rfl
    case isFalse hjk => exact h.mark j (by omega)
  · rw [setState_state, if_neg (by omega)]
    exact h.blank j (by omega)

/-- A block that is not known yet is not on the list. -/
theorem InitLaid.notMem (h : InitLaid c ns J s₀ k s unclean) : k ∉ unclean := by
  intro hmem
  have hst := (mem_cleanBlks.1 (h.counted.clean k hmem)).2
  rw [h.counted.rest k (le_refl k)] at hst
  exact absurd hst (by decide)

/-- An erased block is formatted. -/
theorem InitLaid.format (h : InitLaid c ns (I (blkFirst c k)) s₀ k s unclean) (hI : InitKeeps c ns I)
    (hk : k < c.blkNums) (hb : Blank c s.flash k (ns k)) :
    InitLaid c ns (I (blkFirst c (k + 1))) s₀ (k + 1) (kvBlockFormat c s k) unclean := by
  have hsize := blkSize_ge c
  have hstop := blkStop_eq c k
  have hupd : Function.update ns k [] = ns := by rw [← hb.nil, Function.update_eq_self]
  have hl := h.laid.format (i := k) (Nat.le_succ k) hk (Nat.lt_succ_self k) fun j hj hj' => by omega
  rw [hupd] at hl
  refine ⟨hl, fun j hj => ?_, h.counted.format hk, fun j hj hst => ?_, h.obeys.trans (obeys_format s hk), ?_⟩
  · rw [kvBlockFormat_space]
    by_cases hjk : j = k
    · rw [if_pos hjk, hjk, hb.nil, List.sum_nil]
      unfold blkHdrSize at *
      omega
    · rw [if_neg hjk]
      exact h.space j (by omega)
  · by_cases hjk : j = k
    · rw [hjk]
      exact ⟨fun hmem => absurd hmem h.notMem, fun hne => absurd hb.nil hne⟩
    · rw [kvBlockFormat_state, if_neg hjk] at hst
      exact h.holds j (by omega) hst
  · have hsame : ItemsSame c s.flash (kvBlockFormat c s k).flash := fun j _ a ha hb' => by
      have hfirst : j * c.blkSize + 4 = blkFirst c j := rfl
      rw [kvBlockFormat_flash]
      by_cases hjk : j = k
      · subst hjk
        rw [if_neg (by omega), if_pos (by omega), hb.erased a (by omega) hb']
      · have hapart := blkStop_le hjk (c := c)
        rw [if_neg (by unfold blkStop at *; omega), if_neg (by omega)]
    have hmarks : MarksKept c s.flash (kvBlockFormat c s k).flash := fun j _ => by
      rw [kvBlockFormat_flash]
      by_cases hjk : j = k
      · subst hjk
        rw [if_pos (by omega), Nat.add_sub_cancel_left, hb.erased _ (by omega) (by unfold blkStop; omega)]
        exact .inr (.inr ⟨rfl, rfl⟩)
      · have hapart := blkStop_le hjk (c := c)
        rw [if_neg (by unfold blkStop at *; omega), if_neg (by unfold blkStop at *; omega)]
        exact .inl rfl
    refine hI.next hk ?_
    rw [hb.nil, List.sum_nil]
    exact hI.same h.content hsame hmarks

/-- What is read of a block that is not erased. -/
structure BlkRead (c : KvConf) (ns : ℕ → List ℕ) (J : Mem → Prop) (s : KvMgr) (k : ℕ) (e : KvMgr) :
    Prop where
  laid : LaidOut c (k + 1) ns e
  obeys : Obeys c s e
  content : J e.flash
  space : ∀ j, (e.blockInfo j).space =
    if j = k then blkStop c k - (blkFirst c k + (ns k).sum) else (s.blockInfo j).space
  clean : ∀ j ≠ k, (e.blockInfo j).state = blkStateClean → (s.blockInfo j).state = blkStateClean
  cleanNew : (e.blockInfo k).state = blkStateClean → s.flash (k * c.blkSize + 1) = blkStateClean

/-- The recovery of one block keeps it. -/
theorem InitLaid.traverse (h : InitLaid c ns (I (blkFirst c k)) s₀ k s unclean) (hI : InitKeeps c ns I)
    (hk : k < c.blkNums) (hb : BlockOn c s.flash k (ns k)) : BlkRead c ns (I (blkFirst c (k + 1))) s k
      (kvItemTraverse c (itemRecoveryCb c) (s.setState k (s.flash (k * c.blkSize + 1))) k).2 := by
  have hread := h.laid.read hk hb
  let r : KvMgr := s.setState k (s.flash (k * c.blkSize + 1))
  have hsum : ∀ (done : List ℕ) (n : ℕ), blkFirst c k + (done ++ [n]).sum = blkFirst c k + done.sum + n := by
    intro done n
    rw [List.sum_append, List.sum_singleton, Nat.add_assoc]
  obtain ⟨t, hl, hkept, hr⟩ := hread.traverse_rule (Nat.lt_succ_self k) .recovery trivial
    (I := fun done t => I (blkFirst c k + done.sum) t.flash) h.content
    (fun done n rest t hns hlt _ hI' hst => by
      rw [hsum]
      exact hI.same (hI.dead hk hns hI' hst) (itemsSame_markDirty t k) (hlt.markDirty k).2.marks)
    fun done n rest t hns hlt _ hI' hst => by
      rw [hsum]
      exact hI.recover hlt (Nat.lt_succ_self k) hns hI' hst
  obtain ⟨hr, hcontent⟩ := hr.resolve_left fun hstop => by
    obtain ⟨-, u, item, hcont⟩ := hstop
    exact hcont rfl
  have hfits : blkFirst c k + (ns k).sum < k * c.blkSize + c.blkSize := hb.fits
  change BlkRead c ns _ s k (kvItemTraverse c (KvCallback.recovery.func c) r k).2
  rw [hr]
  have hstate : ∀ j, ((kvTraverseEnd c t k (blkFirst c k + (ns k).sum)).blockInfo j).state =
      (t.blockInfo j).state := fun j => setSpace_state t k j _
  refine ⟨hl.of_eq rfl hstate, ?_, hI.next hk hcontent, fun j => ?_, fun j hj hc => ?_, fun hc => ?_⟩
  · have h₁ : Obeys c s r := obeys_of_eq rfl rfl
    have h₂ : Obeys c t (kvTraverseEnd c t k (blkFirst c k + (ns k).sum)) := obeys_of_eq rfl rfl
    exact (h₁.trans hkept.obeys).trans h₂
  · change ((t.setSpace k _).blockInfo j).space = _
    rw [setSpace_space, if_pos hfits, hkept.space, setState_space]
    rfl
  · rw [hstate, hkept.dirtied.clean_iff, setState_state, if_neg hj] at hc
    exact hc
  · rw [hstate, hkept.dirtied.clean_iff, setState_state, if_pos rfl] at hc
    exact hc

/-- **one block at the start.** -/
theorem InitLaid.block (h : InitLaid c ns (I (blkFirst c k)) s₀ k s unclean) (hI : InitKeeps c ns I)
    (hk : k < c.blkNums) : InitLaid c ns (I (blkFirst c (k + 1))) s₀ (k + 1) (kvInitBlock c s unclean k).1
      (kvInitBlock c s unclean k).2 := by
  have hcounted := h.counted.block hk
  rcases h.laid.blocks k hk with hb | ⟨-, hb⟩
  · have hread := h.traverse hI hk hb
    have hnot := h.notMem
    have hsize := blkSize_ge c
    have hfits := hb.fits
    have hstop := blkStop_eq c k
    have hnil := hb.eq_nil
    have hstates : ¬ (s.flash (k * c.blkSize + 1) ≠ blkStateUsed ∧
        s.flash (k * c.blkSize + 1) ≠ blkStateClean ∧ s.flash (k * c.blkSize + 1) ≠ blkStateDirty) := by
      rintro ⟨hu, hc, hd⟩
      rcases hb.state with h | h | h
      · exact hu h
      · exact hc h
      · exact hd h
    unfold kvInitBlock at hcounted ⊢
    dsimp only at hcounted ⊢
    rw [if_pos hb.magic, if_neg hstates] at hcounted ⊢
    generalize (kvItemTraverse c (itemRecoveryCb c) _ k).2 = e at hread hcounted ⊢
    have hspace : Spaced c (k + 1) ns e := fun j hj => by
      rw [hread.space]
      split
      case isTrue hjk => rw [hjk]
      case isFalse hjk => exact h.space j (by omega)
    have hown : (e.blockInfo k).space ≠ c.blkSize - blkHdrSize ↔ ns k ≠ [] := by
      rw [hread.space, if_pos rfl, ne_eq, ne_eq, hnil]
      unfold blkHdrSize at *
      omega
    have hold : ∀ j < k, (e.blockInfo j).state = blkStateClean → (j ∈ unclean ↔ ns j ≠ []) :=
      fun j hj hc => h.holds j hj (hread.clean j (by omega) hc)
    by_cases hclean : s.flash (k * c.blkSize + 1) = blkStateClean
    · rw [if_pos hclean] at hcounted ⊢
      by_cases hne : (e.blockInfo k).space ≠ c.blkSize - blkHdrSize
      · rw [if_pos hne] at hcounted ⊢
        refine ⟨hread.laid, hspace, hcounted, fun j hj hc => ?_, h.obeys.trans hread.obeys, hread.content⟩
        rcases Nat.lt_succ_iff_lt_or_eq.1 hj with hlt | rfl
        · rw [List.mem_cons, ← hold j hlt hc]
          exact or_iff_right (by omega)
        · exact ⟨fun _ => hown.1 hne, fun _ => List.mem_cons_self⟩
      · rw [if_neg hne] at hcounted ⊢
        refine ⟨hread.laid.of_eq rfl fun _ => rfl, hspace, hcounted, fun j hj hc => ?_,
          (h.obeys.trans hread.obeys).trans (obeys_of_eq rfl rfl), hread.content⟩
        rcases Nat.lt_succ_iff_lt_or_eq.1 hj with hlt | rfl
        · exact hold j hlt hc
        · exact ⟨fun hmem => absurd hmem hnot, fun hns => absurd (hown.2 hns) hne⟩
    · rw [if_neg hclean] at hcounted ⊢
      refine ⟨hread.laid, hspace, hcounted, fun j hj hc => ?_, h.obeys.trans hread.obeys, hread.content⟩
      rcases Nat.lt_succ_iff_lt_or_eq.1 hj with hlt | rfl
      · exact hold j hlt hc
      · exact absurd (hread.cleanNew hc) hclean
  · have hmagic : s.flash (k * c.blkSize) ≠ blkMagicNum := by
      have hsize := blkSize_ge c
      rw [hb.erased _ (le_refl _) (by unfold blkStop; omega)]
      decide
    unfold kvInitBlock
    dsimp only
    rw [if_neg hmagic]
    exact h.format hI hk hb

/-- All blocks, by induction on those that are left. -/
theorem InitLaid.blocks (n : ℕ) (h : InitLaid c ns (I (blkFirst c k)) s₀ k s unclean) (hI : InitKeeps c ns I)
    (hn : k + n = c.blkNums) :
    InitLaid c ns (I (blkFirst c c.blkNums)) s₀ c.blkNums (kvInitBlocks c (List.range' k n) s unclean).1
      (kvInitBlocks c (List.range' k n) s unclean).2 := by
  induction n generalizing k s unclean with
  | zero =>
    obtain rfl : k = c.blkNums := hn
    exact h
  | succ n ih =>
    rw [List.range'_succ]
    exact ih (h.block hI (by omega)) (by omega)

end Blocks

/-! ## Blocks that are marked clean and hold items -/

section Unclean

variable {c : KvConf} {i : ℕ} {ns : ℕ → List ℕ} {I J : Mem → Prop} {s s' s₀ : KvMgr} {unclean : List ℕ}

/-- With a clean block there is, the block is given up as a target and is dirty. -/
theorem InitLaid.keep (h : InitLaid c ns I s₀ c.blkNums s (i :: unclean))
    (hI : ∀ f', ItemsSame c s.flash f' → I f') (hclean : kvGcReserved ≤ s.cleanBlkNums) :
    InitLaid c ns I s₀ c.blkNums (kvInitUnclean c s i) unclean := by
  obtain ⟨hin, hst⟩ := mem_cleanBlks.1 (h.counted.clean i List.mem_cons_self)
  have hcounted := h.counted.resolve
  unfold kvInitUnclean at hcounted ⊢
  rw [if_pos hclean] at hcounted ⊢
  obtain ⟨hl, ho⟩ := h.laid.marked blkStateDirty hin (hst ▸ .recover)
  have hstate : ∀ j, ((kvMarkBlk c s i blkStateDirty).blockInfo j).state =
      if j = i then blkStateDirty else (s.blockInfo j).state := fun j => setState_state _ i j _
  refine ⟨hl, fun j hj => (setState_space _ i j _).trans (h.space j hj), hcounted, fun j hj hc => ?_,
    h.obeys.trans ho, hI _ (itemsSame_markBlk s i _)⟩
  change ((kvMarkBlk c s i blkStateDirty).blockInfo j).state = _ at hc
  rw [hstate] at hc
  split at hc
  case isTrue => exact absurd hc (by decide)
  case isFalse hji =>
    rw [← h.holds j hj hc, List.mem_cons]
    exact (or_iff_right hji).symm

/-- A block is formatted once all blocks are known. -/
theorem InitLaid.giveUp (h : InitLaid c ns I s₀ c.blkNums s unclean) (hi : i < c.blkNums)
    (hJ : J (kvBlockFormat c s i).flash) {unclean' : List ℕ} (hcounted : InitCounted c c.blkNums (kvBlockFormat c s i) unclean')
    (hmem : ∀ j ≠ i, j ∈ unclean' ↔ j ∈ unclean) (hnot : i ∉ unclean') :
    InitLaid c (Function.update ns i []) J s₀ c.blkNums (kvBlockFormat c s i) unclean' := by
  have hstop := blkStop_eq c i
  refine ⟨h.laid.format (le_refl _) (le_refl _) hi fun j hj hj' => by omega, fun j hj => ?_, hcounted,
    fun j hj hc => ?_, h.obeys.trans (obeys_format s hi), hJ⟩
  · rw [kvBlockFormat_space]
    by_cases hji : j = i
    · rw [if_pos hji, hji, Function.update_self, List.sum_nil]
      unfold blkHdrSize at *
      omega
    · rw [if_neg hji, Function.update_of_ne hji]
      exact h.space j hj
  · by_cases hji : j = i
    · rw [hji, Function.update_self]
      exact ⟨fun hm => absurd hm hnot, fun hne => absurd rfl hne⟩
    · rw [kvBlockFormat_state, if_neg hji] at hc
      rw [Function.update_of_ne hji, hmem j hji]
      exact h.holds j hj hc

/-- Without a clean block, it is formatted. -/
theorem InitLaid.drop (h : InitLaid c ns I s₀ c.blkNums s (i :: unclean))
    (hJ : J (kvBlockFormat c s i).flash) (hclean : ¬ kvGcReserved ≤ s.cleanBlkNums) :
    InitLaid c (Function.update ns i []) J s₀ c.blkNums (kvInitUnclean c s i) unclean := by
  obtain ⟨hin, -⟩ := mem_cleanBlks.1 (h.counted.clean i List.mem_cons_self)
  have hcounted := h.counted.resolve
  unfold kvInitUnclean at hcounted ⊢
  rw [if_neg hclean] at hcounted ⊢
  refine h.giveUp hin hJ hcounted (fun j hj => ?_) (List.nodup_cons.1 h.counted.nodup).1
  rw [List.mem_cons]
  exact (or_iff_right hj).symm

/-- Nothing is asked of the recovery. -/
theorem initKeeps_true (c : KvConf) (ns : ℕ → List ℕ) : InitKeeps c ns fun _ _ => True :=
  ⟨fun _ _ _ => trivial, fun _ _ _ _ => trivial, fun _ _ _ _ _ => trivial, fun _ _ => trivial⟩

/-- Less may be asked. -/
theorem InitLaid.imp {k : ℕ} (h : InitLaid c ns I s₀ k s unclean) (hJ : I s.flash → J s.flash) :
    InitLaid c ns J s₀ k s unclean :=
  ⟨h.laid, h.space, h.counted, h.holds, h.obeys, hJ h.content⟩

/-- Blocks may have been formatted. -/
def Formatted (ns ns' : ℕ → List ℕ) : Prop := ∀ i, ns' i = ns i ∨ ns' i = []

/-- A block that is formatted is empty. -/
theorem formatted_update (ns : ℕ → List ℕ) (i : ℕ) : Formatted ns (Function.update ns i []) := by
  intro j
  by_cases hj : j = i
  · subst hj
    exact .inr (Function.update_self _ _ _)
  · exact .inl (Function.update_of_ne hj _ _)

/-- Two times of formatting blocks. -/
theorem Formatted.trans {ns' ns'' : ℕ → List ℕ} (h : Formatted ns ns') (h' : Formatted ns' ns'') :
    Formatted ns ns'' := by
  intro i
  rcases h' i with heq | hnil
  · rw [heq]
    exact h i
  · exact .inr hnil

/-- All of them. -/
theorem InitLaid.resolve (h : InitLaid c ns I s₀ c.blkNums s unclean) :
    ∃ ns', InitLaid c ns' (fun _ => True) s₀ c.blkNums (unclean.foldl (kvInitUnclean c) s) [] ∧
      Formatted ns ns' := by
  induction unclean generalizing s ns I with
  | nil => exact ⟨ns, h.imp fun _ => trivial, fun _ => .inl rfl⟩
  | cons i unclean ih =>
    have hany : InitLaid c ns (fun _ => True) s₀ c.blkNums s (i :: unclean) := h.imp fun _ => trivial
    by_cases hclean : kvGcReserved ≤ s.cleanBlkNums
    · exact ih (hany.keep (fun _ _ => trivial) hclean)
    · obtain ⟨ns', hl, hformatted⟩ := ih (hany.drop (J := fun _ => True) trivial hclean)
      exact ⟨ns', hl, (formatted_update ns i).trans hformatted⟩

end Unclean

/-! ## Where to write -/

section Write

variable {c : KvConf} {ns : ℕ → List ℕ} {I : ℕ → Mem → Prop} {J : Mem → Prop} {s s' s₀ : KvMgr}

/-- A block that is not clean is used or dirty. -/
theorem LaidOut.used_or_dirty {k i : ℕ} (h : LaidOut c k ns s) (hi : i < k)
    (hst : (s.blockInfo i).state ≠ blkStateClean) :
    (s.blockInfo i).state = blkStateUsed ∨ (s.blockInfo i).state = blkStateDirty := by
  rw [h.mark i hi] at hst ⊢
  rcases (h.block i hi).state with hu | hc | hd
  · exact .inl hu
  · exact absurd hc hst
  · exact .inr hd

/-- Going round, a block that is not clean comes before one that is. -/
theorem exists_before_clean {n : ℕ} (clean : ℕ → Prop) (hsome : ∃ i < n, clean i) (hnot : ∃ i < n, ¬ clean i) :
    ∃ i < n, ¬ clean i ∧ clean (if i + 1 = n then 0 else i + 1) := by
  obtain ⟨j, hj, hclean⟩ := hsome
  obtain ⟨i, hi, hdirty⟩ := hnot
  by_contra hnone
  push Not at hnone
  have hround : ∀ d, ¬ clean ((i + d) % n) := by
    intro d
    induction d with
    | zero =>
      rw [Nat.add_zero, Nat.mod_eq_of_lt hi]
      exact hdirty
    | succ d ih =>
      have hlt : (i + d) % n < n := Nat.mod_lt _ (by omega)
      have hnext := hnone _ hlt ih
      have hsucc : (i + (d + 1)) % n = if (i + d) % n + 1 = n then 0 else (i + d) % n + 1 := by
        rw [← Nat.add_assoc, Nat.add_mod]
        split
        case isTrue heq =>
          rw [Nat.add_mod_mod, heq, Nat.mod_self]
        case isFalse hne =>
          rw [Nat.add_mod_mod, Nat.mod_eq_of_lt (by omega)]
      rw [hsucc]
      exact hnext
  refine hround (j + n - i) ?_
  rw [show i + (j + n - i) = j + n by omega, Nat.add_mod_right, Nat.mod_eq_of_lt hj]
  exact hclean

/-- **The end of the start**, when there is a clean block. -/
theorem InitLaid.finish (h : InitLaid c ns J s₀ c.blkNums s []) (hpos : 0 < s.cleanBlkNums) :
    Layout c ns (kvInitWritePos c s) ∧ Obeys c s₀ (kvInitWritePos c s) ∧
      ItemsSame c s.flash (kvInitWritePos c s).flash := by
  have hclean : ∀ i < c.blkNums, (s.blockInfo i).state = blkStateClean → ns i = [] := by
    intro i hi hst
    by_contra hne
    exact absurd ((h.holds i hi hst).2 hne) List.not_mem_nil
  have hnums : s.cleanBlkNums = (cleanBlks c s).card := h.counted.nums
  have hcard : (cleanBlks c s).card ≤ c.blkNums := by
    have := Finset.card_filter_le (Finset.range c.blkNums) fun i => (s.blockInfo i).state = blkStateClean
    rwa [Finset.card_range] at this
  unfold kvInitWritePos
  split
  case isTrue hall =>
    have hzero : (s.blockInfo 0).state = blkStateClean := by
      have hfull : cleanBlks c s = Finset.range c.blkNums :=
        Finset.eq_of_subset_of_card_le (Finset.filter_subset _ _) (by rw [← hnums, hall, Finset.card_range])
      have hmem : 0 ∈ cleanBlks c s := by
        rw [hfull, Finset.mem_range]
        omega
      exact (mem_cleanBlks.1 hmem).2
    have hn : 0 < c.blkNums := by omega
    let u : KvMgr := { s with writePos := blkHdrSize }
    have hu : LaidOut c c.blkNums ns u := h.laid.of_eq rfl fun _ => rfl
    obtain ⟨hl, ho⟩ := hu.marked blkStateUsed hn (show BlkMove (s.blockInfo 0).state _ from hzero ▸ .use)
    have hblk : blkHdrSize / c.blkSize * c.blkSize = 0 * c.blkSize := by
      rw [Nat.div_eq_of_lt (lt_of_lt_of_le (by decide) (blkSize_ge c))]
    have heq : ({ (kvStateSet u (u.writePos / c.blkSize * c.blkSize) blkStateUsed).setState 0 blkStateUsed with
        cleanBlkNums := ((kvStateSet u (u.writePos / c.blkSize * c.blkSize) blkStateUsed).setState 0
          blkStateUsed).cleanBlkNums - 1 } : KvMgr) =
        { kvMarkBlk c u 0 blkStateUsed with cleanBlkNums := s.cleanBlkNums - 1 } := by
      change ({ (kvStateSet u (blkHdrSize / c.blkSize * c.blkSize) blkStateUsed).setState 0 blkStateUsed with
        cleanBlkNums := s.cleanBlkNums - 1 } : KvMgr) = _
      rw [hblk]
      rfl
    have hstate : ∀ j, ((kvMarkBlk c u 0 blkStateUsed).blockInfo j).state =
        if j = 0 then blkStateUsed else (s.blockInfo j).state := fun j => setState_state _ 0 j _
    change Layout c ns ({ (kvStateSet u (u.writePos / c.blkSize * c.blkSize) blkStateUsed).setState 0
      blkStateUsed with cleanBlkNums := _ } : KvMgr) ∧ Obeys c s₀ _ ∧ ItemsSame c _ _
    rw [heq]
    refine ⟨⟨hl.of_eq rfl fun _ => rfl, fun j hj hc => ?_, fun j hj => ?_, 0, hn, ?_, ?_⟩, ?_, ?_⟩
    · change ((kvMarkBlk c u 0 blkStateUsed).blockInfo j).state = _ at hc
      rw [hstate] at hc
      split at hc
      case isTrue => exact absurd hc (by decide)
      case isFalse => exact hclean j hj hc
    · exact (setState_space _ 0 j _).trans (h.space j hj)
    · change ((kvMarkBlk c u 0 blkStateUsed).blockInfo 0).state ≠ _
      rw [hstate, if_pos rfl]
      decide
    · change blkHdrSize = _
      rw [hclean 0 hn hzero, List.sum_nil]
      unfold blkFirst
      rw [Nat.zero_mul, Nat.zero_add, Nat.add_zero]
    · have hu₀ : Obeys c s u := obeys_of_eq rfl rfl
      exact ((h.obeys.trans hu₀).trans ho).trans (obeys_of_eq rfl rfl)
    · exact itemsSame_markBlk u 0 _
  case isFalse hsome =>
    have hfound : ∃ i, kvInitWriteBlk c s = some i := by
      have hmem : ∃ i < c.blkNums, (s.blockInfo i).state = blkStateClean := by
        obtain ⟨i, hi⟩ := Finset.card_pos.1 (hnums ▸ hpos)
        exact ⟨i, mem_cleanBlks.1 hi⟩
      have hnot : ∃ i < c.blkNums, ¬ (s.blockInfo i).state = blkStateClean := by
        by_contra hnone
        push Not at hnone
        have hfull : cleanBlks c s = Finset.range c.blkNums :=
          Finset.filter_true_of_mem fun i hi => hnone i (Finset.mem_range.1 hi)
        rw [hfull, Finset.card_range] at hnums
        exact hsome hnums
      obtain ⟨i, hi, hdirty, hnext⟩ :=
        exists_before_clean (fun i => (s.blockInfo i).state = blkStateClean) hmem hnot
      rw [← Option.isSome_iff_exists]
      unfold kvInitWriteBlk
      rw [List.find?_isSome]
      exact ⟨i, List.mem_range.2 hi, decide_eq_true ⟨h.laid.used_or_dirty hi hdirty, hnext⟩⟩
    obtain ⟨i, hi⟩ := hfound
    rw [hi]
    unfold kvInitWriteBlk at hi
    have hin := List.mem_range.1 (List.mem_of_find?_eq_some hi)
    have hwrite := List.find?_some hi
    rw [decide_eq_true_eq] at hwrite
    obtain ⟨hst, -⟩ := hwrite
    have hfits := (h.laid.block i hin).fits
    refine ⟨⟨h.laid.of_eq rfl fun _ => rfl, hclean, h.space, i, hin, ?_, ?_⟩,
      h.obeys.trans (obeys_of_eq rfl rfl), .refl c _⟩
    · change (s.blockInfo i).state ≠ _
      rcases hst with hst | hst
      · rw [hst]
        decide
      · rw [hst]
        decide
    · change i * c.blkSize + c.blkSize - (s.blockInfo i).space = _
      rw [h.space i hin]
      unfold blkStop at *
      omega

/-- The blocks as they have been read. -/
theorem kvInitBlocks_laid (h : FlashLaid c ns s.flash) (hI : InitKeeps c ns I)
    (hcontent : I (blkFirst c 0) s.flash) : InitLaid c ns (I (blkFirst c c.blkNums)) s.boot c.blkNums
      (kvInitBlocks c (List.range c.blkNums) s.boot []).1 (kvInitBlocks c (List.range c.blkNums) s.boot []).2 := by
  rw [List.range_eq_range']
  exact (initLaid_boot h hcontent).blocks c.blkNums hI (Nat.zero_add _)

/-- Block 0 is given up for want of a clean block. -/
theorem InitLaid.giveUpFirst (h : InitLaid c ns J s₀ c.blkNums s []) (hn : 0 < c.blkNums)
    (J' : Mem → Prop) (hJ' : J' (kvBlockFormat c s 0).flash) (hzero : s.cleanBlkNums = 0) :
    InitLaid c (Function.update ns 0 []) J' s₀ c.blkNums (kvBlockFormat c s 0) [] := by
  have hcounted : CleanCounted c s := ⟨h.counted.nums, h.counted.rest⟩
  have hst : (s.blockInfo 0).state ≠ blkStateClean := fun hst => by
    have hmem : 0 ∈ cleanBlks c s := mem_cleanBlks.2 ⟨hn, hst⟩
    have hcard := Finset.card_pos.2 ⟨0, hmem⟩
    rw [← hcounted.nums, hzero] at hcard
    exact absurd hcard (lt_irrefl 0)
  have hformat := hcounted.format hn hst
  exact h.giveUp hn hJ' ⟨hformat.nums, List.nodup_nil, nofun, hformat.outside⟩ (fun _ _ => Iff.rfl)
    List.not_mem_nil

/-- **The start** finds a layout, or makes one. -/
theorem kvInit_layout (hn : 0 < c.blkNums) (h : FlashLaid c ns s.flash)
    (hinit : kvInit c s.boot = some s') :
    ∃ ns', Layout c ns' s' ∧ Obeys c s.boot s' ∧ Formatted ns ns' := by
  unfold kvInit at hinit
  split at hinit
  case isTrue => cases hinit
  case isFalse =>
    have hblocks := kvInitBlocks_laid h (initKeeps_true c ns) trivial
    cases hr : kvInitBlocks c (List.range c.blkNums) s.boot [] with
    | mk t unclean =>
    rw [hr] at hblocks
    simp only [hr, Option.some.injEq] at hinit
    obtain ⟨ns', hresolved, hformatted⟩ := hblocks.resolve
    generalize unclean.foldl (kvInitUnclean c) t = u at hinit hresolved
    rw [← hinit]
    split
    case isTrue hzero =>
      have hdone := hresolved.giveUpFirst hn (fun _ => True) trivial hzero
      obtain ⟨hl, ho, -⟩ := hdone.finish (Nat.succ_pos _)
      exact ⟨_, hl, ho, hformatted.trans (formatted_update ns' 0)⟩
    case isFalse hpos =>
      obtain ⟨hl, ho, -⟩ := hresolved.finish (Nat.pos_of_ne_zero hpos)
      exact ⟨_, hl, ho, hformatted⟩

/-- A partition that is erased. -/
theorem flashLaid_erased (c : KvConf) : FlashLaid c (fun _ => []) erasedPartition.flash :=
  fun _ _ => .inr ⟨rfl, fun _ _ _ => rfl⟩

end Write

end GenieSdk.Analysis.Kv
