import GenieSdk.Analysis.KvBlocks

/-!
# Searches and stores

A search finds the item with the key, if there is one, and changes nothing but states of blocks; a store puts
its item behind the last one of a block with room for it. Both keep the layout, with lawful writes only.
-/

set_option autoImplicit false

namespace GenieSdk.Analysis.Kv

open GenieSdk.Lib
open GenieSdk.Model

/-- A normal item with the key stands at `pos`. -/
structure KeyAt (c : KvConf) (f : Mem) (pos : ℕ) (key : List UInt8) : Prop where
  normal : f (pos + 1) = itemStateNormal
  keyLen : (readItemHdr c f pos).keyLen = key.length
  stands : Stands f (pos + itemHdrSize c) key

/-- `pos` is the place of an item of block `i`. -/
def PlaceOf (c : KvConf) (ns : ℕ → List ℕ) (i pos n : ℕ) : Prop :=
  ∃ done rest, ns i = done ++ n :: rest ∧ pos = blkFirst c i + done.sum

/-- What a search returns for the item at `pos`. -/
def foundItem (c : KvConf) (f : Mem) (pos : ℕ) : KvItem where
  hdr := readItemHdr c f pos
  store := readBytes f (pos + itemHdrSize c) ((readItemHdr c f pos).keyLen + (readItemHdr c f pos).valLen)
  len := (readItemHdr c f pos).keyLen + (readItemHdr c f pos).valLen
  pos := pos

section Same

variable {c : KvConf} {k i pos n : ℕ} {ns : ℕ → List ℕ} {s s' s'' : KvMgr} {f f' f'' : Mem}
  {key : List UInt8}

/-- A place lies in its block and has a header. -/
theorem PlaceOf.bounds (h : PlaceOf c ns i pos n) (hb : BlockOn c f i (ns i)) :
    blkFirst c i ≤ pos ∧ pos + n < blkStop c i ∧ HdrAt c f pos n := by
  obtain ⟨done, rest, hns, rfl⟩ := h
  rw [hns] at hb
  have hfits := hb.fits
  rw [List.sum_append, List.sum_cons] at hfits
  exact ⟨by omega, by omega, hb.hdrAt⟩

/-- The bytes of an item. -/
theorem PlaceOf.same (h : PlaceOf c ns i pos n) (hb : BlockOn c f i (ns i)) (hi : i < c.blkNums)
    (hsame : ItemsSame c f f') : ∀ a, pos ≤ a → a < pos + n → f' a = f a := by
  obtain ⟨hlo, hhi, -⟩ := h.bounds hb
  intro a ha hb
  exact hsame i hi a (by omega) (by omega)

/-- The key and the value are part of the item. -/
theorem HdrAt.readItemHdr_same (h : HdrAt c f pos n) (hsame : ∀ a, pos ≤ a → a < pos + n → f' a = f a) :
    readItemHdr c f' pos = readItemHdr c f pos :=
  readItemHdr_congr fun k hk => hsame _ (by omega) (by have := h.hdr_lt; omega)

/-- A key stays if the bytes of its item do. -/
theorem KeyAt.congr (h : KeyAt c f pos key) (hdr : HdrAt c f pos n)
    (hsame : ∀ a, pos ≤ a → a < pos + n → f' a = f a) : KeyAt c f' pos key := by
  have hlt := hdr.size_spec.1
  have h8 : 8 ≤ itemHdrSize c := by
    obtain h | h := itemHdrSize_cases c <;> omega
  refine ⟨?_, ?_, h.stands.congr fun a ha hb => hsame a (by omega) ?_⟩
  · rw [hsame _ (by omega) (by omega)]
    exact h.normal
  · rw [hdr.readItemHdr_same hsame]
    exact h.keyLen
  · rw [h.keyLen] at hlt
    omega

/-- So does the item that is found. -/
theorem foundItem_congr (hdr : HdrAt c f pos n) (hsame : ∀ a, pos ≤ a → a < pos + n → f' a = f a) :
    foundItem c f' pos = foundItem c f pos := by
  have hlt := hdr.size_spec.1
  have hstore : readBytes f' (pos + itemHdrSize c)
        ((readItemHdr c f pos).keyLen + (readItemHdr c f pos).valLen) =
      readBytes f (pos + itemHdrSize c)
        ((readItemHdr c f pos).keyLen + (readItemHdr c f pos).valLen) :=
    readBytes_congr fun k hk => hsame _ (by omega) (by omega)
  unfold foundItem
  rw [hdr.readItemHdr_same hsame, hstore]

end Same

/-! ## The search -/

section Find

variable {c : KvConf} {k i pos n : ℕ} {ns : ℕ → List ℕ} {s s' : KvMgr} {key : List UInt8}

/-- The callback, by what stands there. -/
theorem itemFindCb_eq (key : List UInt8) (hst : s.flash (pos + 1) = itemStateNormal) :
    KeyAt c s.flash pos key ∧
        itemFindCb c key s (itemAt c s.flash pos) = (.ok, foundItem c s.flash pos, s) ∨
      ¬ KeyAt c s.flash pos key ∧ ∃ item, itemFindCb c key s (itemAt c s.flash pos) = (.cont, item, s) := by
  unfold itemFindCb
  dsimp only
  by_cases hlen : (itemAt c s.flash pos).hdr.keyLen = key.length
  · rw [if_neg (not_not.2 hlen)]
    have hle : key.length ≤ (itemAt c s.flash pos).len := by
      rw [← hlen]
      exact Nat.le_add_right _ _
    have htake : (readBytes s.flash (pos + itemHdrSize c) (itemAt c s.flash pos).len).take key.length =
        readBytes s.flash (pos + itemHdrSize c) key.length := Lib.readBytes_take _ _ hle
    by_cases hkey : readBytes s.flash (pos + itemHdrSize c) key.length = key
    · left
      refine ⟨⟨hst, hlen, hkey⟩, ?_⟩
      rw [if_pos (by exact htake.trans hkey)]
      rfl
    · right
      refine ⟨fun h => hkey h.stands, ?_⟩
      rw [if_neg (by rw [show (itemAt c s.flash pos).pos = pos from rfl, htake]; exact hkey)]
      exact ⟨_, rfl⟩
  · right
    rw [if_pos hlen]
    exact ⟨fun h => hlen h.keyLen, _, rfl⟩

/-- What the search in a block finds. -/
def FoundIn (c : KvConf) (ns : ℕ → List ℕ) (f : Mem) (key : List UInt8) (i : ℕ) :
    Option KvItem → Prop
  | some item => ∃ pos n, PlaceOf c ns i pos n ∧ KeyAt c f pos key ∧ item = foundItem c f pos
  | none => ∀ pos n, PlaceOf c ns i pos n → ¬ KeyAt c f pos key

/-- One more item has been passed. -/
theorem passed_append {P : List ℕ → ℕ → Prop} {done : List ℕ}
    (h : ∀ d m e, done = d ++ m :: e → P d m) (hn : P done n) :
    ∀ d m e, done ++ [n] = d ++ m :: e → P d m := by
  intro d m e he
  rcases List.eq_nil_or_concat e with rfl | ⟨e, m', rfl⟩
  · obtain ⟨rfl, hm⟩ := List.append_inj' he rfl
    obtain rfl : n = m := by simpa using hm
    exact hn
  · rw [List.concat_eq_append, ← List.cons_append, ← List.append_assoc] at he
    exact h d m e (List.append_inj' he rfl).1

/-- **the search in a block.** -/
theorem LaidOut.find (h : LaidOut c k ns s) (hi : i < k) (key : List UInt8) :
    FoundIn c ns s.flash key i (kvItemTraverse c (itemFindCb c key) s i).1 ∧
      ItemsSame c s.flash (kvItemTraverse c (itemFindCb c key) s i).2.flash := by
  have hb := h.block i hi
  have hin := lt_of_lt_of_le hi h.le
  have hplace : ∀ {done n rest}, ns i = done ++ n :: rest →
      PlaceOf c ns i (blkFirst c i + done.sum) n := fun hns => ⟨_, _, hns, rfl⟩
  refine scan_rule (J := fun done t => LaidOut c k ns t ∧ ItemsSame c s.flash t.flash ∧
      ∀ d n e, done = d ++ n :: e → ¬ KeyAt c s.flash (blkFirst c i + d.sum) key)
    (Q := fun r => FoundIn c ns s.flash key i r.1 ∧ ItemsSame c s.flash r.2.flash)
    ⟨hb.fits, ?_, ?_, ?_, ?_, ?_⟩ ⟨h, .refl c _, fun d n e he => by simp at he⟩
  · intro done n rest t hns hJ
    have hbt := hJ.1.block i hi
    rw [hns] at hbt
    exact hbt.hdrAt
  · intro t hJ
    exact (hJ.1.block i hi).rest
  · intro done n rest t hns hJ hst
    obtain ⟨hl, hk⟩ := hJ.1.markDirty i
    refine ⟨hl, hJ.2.1.trans (itemsSame_markDirty t i), passed_append
      (P := fun d _ => ¬ KeyAt c s.flash (blkFirst c i + d.sum) key) hJ.2.2 fun hkey => ?_⟩
    have hlt := ((hplace hns).bounds hb).2.2.hdr_lt
    have h8 : 8 ≤ itemHdrSize c := by
      obtain h | h := itemHdrSize_cases c <;> omega
    have hsame := (hplace hns).same hb hin hJ.2.1 (blkFirst c i + done.sum + 1) (by omega) (by omega)
    rw [hkey.normal, hst] at hsame
    exact absurd hsame (by decide)
  · intro done n rest t hns hJ hst res item' t' hcall
    have hpl := hplace hns
    have hsame := hpl.same hb hin hJ.2.1
    have hdr := (hpl.bounds hb).2.2
    have hdrt : HdrAt c t.flash (blkFirst c i + done.sum) n :=
      hdr.congr fun k hk => hsame _ (by omega) (by have := hdr.hdr_lt; omega)
    rcases itemFindCb_eq (c := c) key hst with ⟨hkey, heq⟩ | ⟨hkey, item, heq⟩
    · rw [heq] at hcall
      cases hcall
      refine ⟨fun h => (by cases h), fun _ => ⟨⟨_, n, hpl, ?_, ?_⟩, hJ.2.1⟩⟩
      · exact hkey.congr hdrt fun a ha hb => (hsame a ha hb).symm
      · exact foundItem_congr hdr hsame
    · rw [heq] at hcall
      cases hcall
      have hpassed := passed_append (n := n)
        (P := fun d _ => ¬ KeyAt c s.flash (blkFirst c i + d.sum) key) hJ.2.2 fun hk => hkey (hk.congr hdr hsame)
      exact ⟨fun _ => ⟨hJ.1, hJ.2.1, hpassed⟩, fun h => absurd rfl h⟩
  · intro t hJ
    refine ⟨fun pos n hp => ?_, hJ.2.1⟩
    obtain ⟨done, rest, hns, rfl⟩ := hp
    exact hJ.2.2 done n rest hns

/-- The layout after steps that only delete. -/
theorem Layout.kept (h : Layout c ns s) (hl : LaidOut c c.blkNums ns s') (hk : Kept c s s') :
    Layout c ns s' := by
  obtain ⟨w, hw, hst, hpos⟩ := h.write
  refine ⟨hl, fun i hi hc => h.clean i hi ((hk.dirtied.clean_iff i).1 hc), fun i hi => ?_, w, hw, ?_, ?_⟩
  · rw [hk.space]
    exact h.space i hi
  · rw [ne_eq, hk.dirtied.clean_iff]
    exact hst
  · rw [hk.writePos, hpos]

/-- The end of a traversal finds the space that is known already. -/
theorem kept_traverseEnd (hl : LaidOut c k ns s) (hs : Spaced c k ns s) (hi : i < k) :
    LaidOut c k ns (kvTraverseEnd c s i (blkFirst c i + (ns i).sum)) ∧
      Kept c s (kvTraverseEnd c s i (blkFirst c i + (ns i).sum)) := by
  have hfits : _ < i * c.blkSize + c.blkSize := (hl.block i hi).fits
  have hspace : (if blkFirst c i + (ns i).sum < i * c.blkSize + c.blkSize then
      i * c.blkSize + c.blkSize - (blkFirst c i + (ns i).sum) else itemHdrSize c) =
      (s.blockInfo i).space := by
    rw [if_pos hfits, hs i hi]
    rfl
  unfold kvTraverseEnd
  dsimp only
  rw [hspace]
  refine ⟨hl.of_eq rfl fun j => setSpace_state s i j _, obeys_of_eq rfl rfl,
    onlyDirtied_setSpace s i _, fun j => ?_, rfl, rfl, .refl c _⟩
  rw [setSpace_space]
  split
  case isTrue hj => rw [hj]
  case isFalse => rfl

/-- **A traversal between two calls.** -/
theorem Layout.traverse (h : Layout c ns s) (hi : i < c.blkNums) (cb : KvCallback) (hcb : cb.Deletes) :
    Layout c ns (kvItemTraverse c (cb.func c) s i).2 ∧
      Kept c s (kvItemTraverse c (cb.func c) s i).2 := by
  obtain ⟨t, hl, hk, hr⟩ := h.laid.traverse hi cb hcb
  have ht := h.kept hl hk
  rcases hr with ⟨hr, -⟩ | hr
  · rw [hr]
    exact ⟨ht, hk⟩
  · rw [hr]
    obtain ⟨hl', hk'⟩ := kept_traverseEnd hl ht.space hi
    exact ⟨ht.kept hl' hk', hk.trans hk'⟩

/-- All blocks in turn. -/
theorem Layout.foldl (h : Layout c ns s) (cb : KvCallback) (hcb : cb.Deletes) (is : List ℕ)
    (his : ∀ i ∈ is, i < c.blkNums) :
    Layout c ns (is.foldl (fun s i => (kvItemTraverse c (cb.func c) s i).2) s) ∧
      Kept c s (is.foldl (fun s i => (kvItemTraverse c (cb.func c) s i).2) s) := by
  induction is generalizing s with
  | nil => exact ⟨h, .refl c s⟩
  | cons i is ih =>
    obtain ⟨hl, hk⟩ := h.traverse (his i (by simp)) cb hcb
    obtain ⟨hl', hk'⟩ := ih hl fun j hj => his j (List.mem_cons_of_mem _ hj)
    exact ⟨hl', hk.trans hk'⟩

/-- What the search in all blocks finds. -/
def FoundAll (c : KvConf) (ns : ℕ → List ℕ) (f : Mem) (key : List UInt8) (is : List ℕ) :
    Option KvItem → Prop
  | some item => ∃ i < c.blkNums, FoundIn c ns f key i (some item)
  | none => ∀ i ∈ is, FoundIn c ns f key i none

/-- What is found in a block stays if the items do. -/
theorem FoundIn.congr (h : LaidOut c k ns s) (hi : i < k) {f' : Mem} {found : Option KvItem}
    (hsame : ItemsSame c s.flash f') (hf : FoundIn c ns f' key i found) :
    FoundIn c ns s.flash key i found := by
  have hb := h.block i hi
  cases found with
  | none =>
    intro pos n hp hkey
    exact hf pos n hp (hkey.congr (hp.bounds hb).2.2 (hp.same hb (lt_of_lt_of_le hi h.le) hsame))
  | some item =>
    obtain ⟨pos, n, hp, hkey, hitem⟩ := hf
    have hdr := (hp.bounds hb).2.2
    have heq := hp.same hb (lt_of_lt_of_le hi h.le) hsame
    have hdr' : HdrAt c f' pos n :=
      hdr.congr fun k hk => heq _ (by omega) (by have := hdr.hdr_lt; omega)
    exact ⟨pos, n, hp, hkey.congr hdr' fun a ha hb => (heq a ha hb).symm,
      hitem.trans (foundItem_congr hdr heq)⟩

/-- The search, block by block. -/
theorem Layout.getIn (h : Layout c ns s) {is : List ℕ} (his : ∀ i ∈ is, i < c.blkNums)
    (key : List UInt8) : Layout c ns (kvItemGetIn c key is s).2 ∧ Kept c s (kvItemGetIn c key is s).2 ∧
      ItemsSame c s.flash (kvItemGetIn c key is s).2.flash ∧
      FoundAll c ns s.flash key is (kvItemGetIn c key is s).1 := by
  induction is generalizing s with
  | nil => exact ⟨h, .refl c s, .refl c _, fun _ hi => by simp at hi⟩
  | cons i is ih =>
    have hi := his i (by simp)
    have his' : ∀ j ∈ is, j < c.blkNums := fun j hj => his j (List.mem_cons_of_mem _ hj)
    unfold kvItemGetIn
    by_cases hst : (s.blockInfo i).state ≠ blkStateClean
    · rw [if_pos hst]
      have ht := h.traverse hi (.find key) trivial
      change Layout c ns (kvItemTraverse c (itemFindCb c key) s i).2 ∧
        Kept c s (kvItemTraverse c (itemFindCb c key) s i).2 at ht
      have hfind := h.laid.find hi key
      cases hr : kvItemTraverse c (itemFindCb c key) s i with
      | mk found t =>
      rw [hr] at ht hfind
      cases found with
      | some item => exact ⟨ht.1, ht.2, hfind.2, i, hi, hfind.1⟩
      | none =>
        obtain ⟨hl, hk, hsame, hall⟩ := ih ht.1 his'
        refine ⟨hl, ht.2.trans hk, hfind.2.trans hsame, ?_⟩
        have hcongr : ∀ {j : ℕ} {found : Option KvItem}, j < c.blkNums →
            FoundIn c ns t.flash key j found → FoundIn c ns s.flash key j found :=
          fun hj hf => FoundIn.congr h.laid hj hfind.2 hf
        cases hfound : (kvItemGetIn c key is t).1 with
        | some item =>
          rw [hfound] at hall
          obtain ⟨j, hj, hf⟩ := hall
          exact ⟨j, hj, hcongr hj hf⟩
        | none =>
          rw [hfound] at hall
          intro j hj
          rcases List.mem_cons.1 hj with rfl | hj
          · exact hfind.1
          · exact hcongr (his' j hj) (hall j hj)
    · rw [if_neg hst]
      obtain ⟨hl, hk, hsame, hall⟩ := ih h his'
      refine ⟨hl, hk, hsame, ?_⟩
      cases hfound : (kvItemGetIn c key is s).1 with
      | some item =>
        rw [hfound] at hall
        exact hall
      | none =>
        rw [hfound] at hall
        intro j hj
        rcases List.mem_cons.1 hj with rfl | hj
        · intro pos n hp
          obtain ⟨done, rest, hns, -⟩ := hp
          rw [h.clean j hi (not_not.1 hst)] at hns
          simp at hns
        · exact hall j hj

/-- **The search.** -/
theorem Layout.get (h : Layout c ns s) (key : List UInt8) : Layout c ns (kvItemGet c s key).2 ∧
    Kept c s (kvItemGet c s key).2 ∧ ItemsSame c s.flash (kvItemGet c s key).2.flash ∧
    FoundAll c ns s.flash key (List.range c.blkNums) (kvItemGet c s key).1 :=
  h.getIn (fun _ hi => List.mem_range.1 hi) key

end Find

/-! ## A store -/

section Store

variable {c : KvConf} {k i j w pos p n len : ℕ} {ns : ℕ → List ℕ} {ms : List ℕ} {s s' : KvMgr} {f f' : Mem}
  {bytes : List UInt8}

/-- An item behind the last one of a block. -/
theorem BlockOn.append (h : BlockOn c f i ms) (hfit : blkFirst c i + ms.sum + n < blkStop c i)
    (hdr : HdrAt c f' (blkFirst c i + ms.sum) n)
    (hsame : ∀ a, a < blkFirst c i + ms.sum ∨ blkFirst c i + ms.sum + n ≤ a → f' a = f a) :
    BlockOn c f' i (ms ++ [n]) := by
  have hfirst : i * c.blkSize + 4 = blkFirst c i := rfl
  have hsum : (ms ++ [n]).sum = ms.sum + n := by simp
  refine ⟨?_, ?_, laidFrom_append.2 ⟨h.laid.congr fun a _ hb => hsame a (.inl hb), ?_⟩, ?_,
    fun a ha hb => ?_⟩
  · rw [hsame _ (.inl (by omega)), h.magic]
  · rw [hsame _ (.inl (by omega))]
    exact h.state
  · exact laidFrom_singleton.2 hdr
  · omega
  · rw [hsame a (.inr (by omega))]
    exact h.rest a (by omega) hb

/-- The same for all blocks. -/
theorem LaidOut.append (h : LaidOut c c.blkNums ns s) (s' : KvMgr) (hw : w < c.blkNums)
    (hpos : pos = blkFirst c w + (ns w).sum) (hfit : pos + bytes.length < blkStop c w)
    (hdr : HdrAt c (writeBytes s.flash pos bytes) pos bytes.length)
    (hf : s'.flash = writeBytes s.flash pos bytes) (ht : s'.trace = s.trace ++ [.write pos bytes])
    (hs : ∀ j, (s'.blockInfo j).state = (s.blockInfo j).state) :
    LaidOut c c.blkNums (Function.update ns w (ns w ++ [bytes.length])) s' ∧ Obeys c s s' := by
  have hfirst : w * c.blkSize + 4 = blkFirst c w := rfl
  have hout : ∀ a, a < pos ∨ pos + bytes.length ≤ a → s'.flash a = s.flash a := fun a ha => by
    rw [hf]
    exact writeBytes_outside _ _ _ _ ha
  have hother : ∀ j, j ≠ w → ∀ a, j * c.blkSize ≤ a → a < blkStop c j → s'.flash a = s.flash a := by
    intro j hj a ha hb
    apply hout
    have hapart := blkStop_le hj (c := c)
    omega
  refine ⟨⟨h.le, fun j hj => ?_, fun j hj => ?_, fun j hj => ?_⟩, ?_⟩
  · by_cases hjw : j = w
    · subst hjw
      rw [Function.update_self]
      refine .inl ((h.block j hj).append (hpos ▸ hfit) ?_ fun a ha => hout a (hpos ▸ ha))
      rw [← hpos, hf]
      exact hdr
    · rw [Function.update_of_ne hjw]
      exact .inl ((h.block j hj).congr (hother j hjw))
  · have hmark : s'.flash (j * c.blkSize + 1) = s.flash (j * c.blkSize + 1) := by
      by_cases hjw : j = w
      · rw [hjw]
        exact hout _ (.inl (by omega))
      · have hsize := blkSize_ge c
        exact hother j hjw _ (by omega) (by unfold blkStop; omega)
    rw [hs, hmark]
    exact h.mark j hj
  · rw [hs]
    exact h.blank j hj
  · refine obeys_doFlash (.fresh (i := w) hw (by omega) (by omega) fun k hk => ?_) ht hf
    exact (h.block w hw).rest _ (by omega) (by omega)

/-- Another state of the manager with the same blocks. -/
theorem Layout.of_eq (h : Layout c ns s) (hf : s'.flash = s.flash) (hi : s'.blockInfo = s.blockInfo)
    (hw : s'.writePos = s.writePos) : Layout c ns s' := by
  obtain ⟨w, hwn, hst, hpos⟩ := h.write
  refine ⟨h.laid.of_eq hf fun j => by rw [hi], ?_, ?_, w, hwn, ?_, ?_⟩
  · rw [hi]
    exact h.clean
  · intro j hj
    rw [hi]
    exact h.space j hj
  · rw [hi]
    exact hst
  · rw [hw, hpos]

/-- A collection is triggered. -/
theorem Layout.trigger (h : Layout c ns s) :
    Layout c ns (kvTriggerGc s) ∧ Obeys c s (kvTriggerGc s) ∧ (kvTriggerGc s).flash = s.flash := by
  unfold kvTriggerGc
  split
  · exact ⟨h, .refl c s, rfl⟩
  · exact ⟨h.of_eq rfl rfl rfl, obeys_of_eq rfl rfl, rfl⟩

/-- A block with room is taken. -/
theorem Layout.takeBlk (h : Layout c ns s) (hj : j < c.blkNums) :
    (kvTakeBlk c s j).1 = blkFirst c j + (ns j).sum ∧
      (kvTakeBlk c s j).2.writePos = blkFirst c j + (ns j).sum ∧ Layout c ns (kvTakeBlk c s j).2 ∧
      Obeys c s (kvTakeBlk c s j).2 ∧ ItemsSame c s.flash (kvTakeBlk c s j).2.flash ∧
      ((kvTakeBlk c s j).2.blockInfo j).state ≠ blkStateClean := by
  have hfits := (h.laid.block j hj).fits
  have hpos : j * c.blkSize + c.blkSize - (s.blockInfo j).space = blkFirst c j + (ns j).sum := by
    rw [h.space j hj]
    unfold blkStop at *
    omega
  let u : KvMgr := { s with writePos := blkFirst c j + (ns j).sum }
  have hu : LaidOut c c.blkNums ns u := h.laid.of_eq rfl fun _ => rfl
  unfold kvTakeBlk
  dsimp only
  rw [hpos]
  by_cases hst : (s.blockInfo j).state = blkStateClean
  · rw [if_pos hst]
    obtain ⟨hl, ho⟩ := hu.marked blkStateUsed hj (show BlkMove (s.blockInfo j).state _ from hst ▸ .use)
    have hstate : ∀ m, ((kvMarkBlk c u j blkStateUsed).blockInfo m).state =
        if m = j then blkStateUsed else (s.blockInfo m).state := fun m => setState_state _ j m _
    have hused : ((kvMarkBlk c u j blkStateUsed).blockInfo j).state ≠ blkStateClean := by
      rw [hstate, if_pos rfl]
      decide
    refine ⟨rfl, rfl, ⟨hl.of_eq rfl fun _ => rfl, fun m hm hc => ?_, fun m hm => ?_, j, hj, hused, rfl⟩,
      ho, itemsSame_markBlk u j _, hused⟩
    · change ((kvMarkBlk c u j blkStateUsed).blockInfo m).state = blkStateClean at hc
      rw [hstate] at hc
      split at hc
      · exact absurd hc (by decide)
      · exact h.clean m hm hc
    · exact (setState_space _ j m _).trans (h.space m hm)
  · rw [if_neg hst]
    exact ⟨rfl, rfl, ⟨hu, h.clean, h.space, j, hj, hst, rfl⟩, obeys_of_eq rfl rfl, .refl c _, hst⟩

/-- What `kv_calc_position` returns: nothing, or the place behind the last item of a block with room. -/
inductive Position (c : KvConf) (ns : ℕ → List ℕ) (s s' : KvMgr) (len : ℕ) : ℕ → Prop
  | none : s' = kvTriggerGc s → Position c ns s s' len 0
  | behind {w : ℕ} : w < c.blkNums → blkFirst c w + (ns w).sum + len < blkStop c w →
      s'.writePos = blkFirst c w + (ns w).sum → (s'.blockInfo w).state ≠ blkStateClean →
      Position c ns s s' len (blkFirst c w + (ns w).sum)

/-- **The position of the next item.** -/
theorem Layout.calcPosition (h : Layout c ns s) (hp : kvCalcPosition c s len = some (p, s')) :
    Layout c ns s' ∧ Obeys c s s' ∧ ItemsSame c s.flash s'.flash ∧ Position c ns s s' len p := by
  obtain ⟨w, hw, hst, hpos⟩ := h.write
  have hwb := h.laid.block w hw
  have hfits := hwb.fits
  have hidx : s.writePos / c.blkSize = w := by
    rw [hpos]
    exact div_blkSize (Nat.le_add_right _ _) hfits
  have htrig := h.trigger
  have hroom : ∀ j, j < c.blkNums → HasSpace s len j → blkFirst c j + (ns j).sum + len < blkStop c j := by
    intro j hj hspace
    have hf := (h.laid.block j hj).fits
    unfold HasSpace at hspace
    rw [h.space j hj] at hspace
    omega
  unfold kvCalcPosition at hp
  dsimp only at hp
  rw [hidx] at hp
  by_cases hspace : len < (s.blockInfo w).space
  · rw [if_pos hspace] at hp
    have hr := hroom w hw hspace
    split at hp
    all_goals
      obtain ⟨rfl, rfl⟩ := Prod.mk.inj (Option.some.inj hp)
      rw [hpos]
    · obtain ⟨hl, ho, hf⟩ := htrig
      refine ⟨hl, ho, hf ▸ .refl c _, .behind hw hr ?_ ?_⟩
      · unfold kvTriggerGc
        split
        · exact hpos
        · exact hpos
      · unfold kvTriggerGc
        split
        · exact hst
        · exact hst
    · exact ⟨h, .refl c s, .refl c _, .behind hw hr hpos hst⟩
  · have hnone : some (0, kvTriggerGc s) = some (p, s') → Layout c ns s' ∧ Obeys c s s' ∧
        ItemsSame c s.flash s'.flash ∧ Position c ns s s' len p := by
      intro heq
      obtain ⟨rfl, rfl⟩ := Prod.mk.inj (Option.some.inj heq)
      obtain ⟨hl, ho, hf⟩ := htrig
      exact ⟨hl, ho, hf ▸ .refl c _, .none rfl⟩
    rw [if_neg hspace] at hp
    split at hp
    case isFalse => exact hnone hp
    case isTrue hc =>
      rcases kvCalcScan_sound (by omega) hp with heq | ⟨j, hj, heq, hjn⟩
      · exact hnone (congrArg some heq.symm)
      · have hjn := hjn.1 hw
        obtain ⟨hfst, hwp, hl, ho, hsame, hst'⟩ := h.takeBlk hjn
        have hp' : p = (kvTakeBlk c s j).1 := congrArg Prod.fst heq
        have hs' : s' = (kvTakeBlk c s j).2 := congrArg Prod.snd heq
        rw [hp', hfst, hs']
        exact ⟨hl, ho, hsame, .behind hjn (hroom j hjn hj) hwp hst'⟩

/-- The header that is stored. -/
theorem HdrAt.entry {e : KvEntry} (he : e.Passes c) (hkey : e.key ≠ [])
    (horg : e.originOff < c.blkNums * c.blkSize) (hdvd : 4 ∣ e.originOff)
    (h : Stands f pos (e.bytes c)) : HdrAt c f pos (e.size c) := by
  obtain ⟨hhdr, -, -⟩ := readItemHdr_entry he h
  refine ⟨congrArg ItemHdr.magic hhdr, .inl (congrArg ItemHdr.state hhdr), ?_, ?_, ?_, ?_, ?_, ?_, ?_⟩
  all_goals rw [hhdr]
  · exact List.length_pos_iff.2 hkey
  · exact he.key_le
  · exact he.val_pos
  · exact he.val_le
  · rfl
  · exact horg
  · exact hdvd

/-- The item stands behind the last one of block `w`; the block may have been a clean one. -/
structure Stored (c : KvConf) (ns : ℕ → List ℕ) (s : KvMgr) (e : KvEntry) (w : ℕ) (s' : KvMgr) :
    Prop where
  lt : w < c.blkNums
  layout : Layout c (Function.update ns w (ns w ++ [e.size c])) s'
  write : ∃ t, Layout c ns t ∧ ItemsSame c s.flash t.flash ∧
    s'.flash = writeBytes t.flash (blkFirst c w + (ns w).sum) (e.bytes c)

/-- **A store**: nothing but a triggered collection, or the item behind the last one of a block. -/
theorem Layout.store {e : KvEntry} {res : KvRes} (h : Layout c ns s) (he : e.Passes c) (hkey : e.key ≠ [])
    (horg : e.originOff < c.blkNums * c.blkSize) (hdvd : 4 ∣ e.originOff)
    (hstore : kvItemStore c s e.key e.val e.originOff = some (res, s')) : Obeys c s s' ∧
      (res = .noSpace ∧ Layout c ns s' ∧ s' = kvTriggerGc s ∨
        res = .ok ∧ ∃ w, Stored c ns s e w s') := by
  unfold kvItemStore at hstore
  dsimp only at hstore
  rw [show kvAlign (itemHdrSize c + e.key.length + e.val.length) = e.size c from rfl] at hstore
  cases hcalc : kvCalcPosition c s (e.size c) with
  | none =>
    rw [hcalc] at hstore
    cases hstore
  | some r =>
  obtain ⟨p, t⟩ := r
  obtain ⟨hl, ho, hsame, hposition⟩ := h.calcPosition hcalc
  rw [hcalc] at hstore
  dsimp only at hstore
  cases hposition with
  | none ht =>
    rw [if_neg (lt_irrefl 0)] at hstore
    obtain ⟨rfl, rfl⟩ := Prod.mk.inj (Option.some.inj hstore)
    exact ⟨ho, .inl ⟨rfl, hl, ht⟩⟩
  | @behind w hw hfit hwp hst =>
    have hfirst : w * c.blkSize + 4 = blkFirst c w := rfl
    rw [if_pos (by omega)] at hstore
    obtain ⟨rfl, rfl⟩ := Prod.mk.inj (Option.some.inj hstore)
    have hlen := length_entryBytes c e
    have hidx : (blkFirst c w + (ns w).sum + e.size c) / c.blkSize = w :=
      div_blkSize (by omega) hfit
    have hmax := blkSize_lt hw
    have hfits := (hl.laid.block w hw).fits
    have hspace : kvSizeSub c (t.blockInfo w).space (e.size c) =
        blkStop c w - (blkFirst c w + (ns w).sum + e.size c) := by
      rw [hl.space w hw, kvSizeSub_eq (by omega) (by unfold blkStop at *; omega)]
      omega
    have hdr : HdrAt c (writeBytes t.flash (blkFirst c w + (ns w).sum) (e.bytes c))
        (blkFirst c w + (ns w).sum) (e.bytes c).length := by
      rw [hlen]
      exact HdrAt.entry he hkey horg hdvd stands_write
    let u : KvMgr := { kvOsPartitionWrite t (blkFirst c w + (ns w).sum) (e.bytes c) with
      writePos := blkFirst c w + (ns w).sum + e.size c }
    obtain ⟨hl', ho'⟩ := hl.laid.append u hw rfl (by rw [hlen]; exact hfit) hdr rfl rfl fun _ => rfl
    rw [hlen] at hl'
    have hend : u.setSpace (u.writePos / c.blkSize)
        (kvSizeSub c (u.blockInfo (u.writePos / c.blkSize)).space (e.size c)) =
        u.setSpace w (blkStop c w - (blkFirst c w + (ns w).sum + e.size c)) := by
      change u.setSpace ((blkFirst c w + (ns w).sum + e.size c) / c.blkSize) (kvSizeSub c
        (t.blockInfo ((blkFirst c w + (ns w).sum + e.size c) / c.blkSize)).space (e.size c)) = _
      rw [hidx, hspace]
    change Obeys c s (u.setSpace (u.writePos / c.blkSize)
      (kvSizeSub c (u.blockInfo (u.writePos / c.blkSize)).space (e.size c))) ∧
      (_ ∨ _ ∧ ∃ w, Stored c ns s e w (u.setSpace (u.writePos / c.blkSize)
      (kvSizeSub c (u.blockInfo (u.writePos / c.blkSize)).space (e.size c))))
    rw [hend]
    refine ⟨(ho.trans ho').trans (obeys_of_eq rfl rfl), .inr ⟨rfl, w, hw,
      ⟨hl'.of_eq rfl fun j => setSpace_state u w j _, fun j hj hc => ?_, fun j hj => ?_, w, hw, ?_, ?_⟩,
      t, hl, hsame, rfl⟩⟩
    · rw [setSpace_state] at hc
      have hjw : j ≠ w := fun heq => hst (heq ▸ hc)
      rw [Function.update_of_ne hjw]
      exact hl.clean j hj hc
    · rw [setSpace_space]
      by_cases hjw : j = w
      · rw [if_pos hjw, hjw, Function.update_self, List.sum_append, List.sum_singleton, Nat.add_assoc]
      · rw [if_neg hjw, Function.update_of_ne hjw]
        exact hl.space j hj
    · rw [setSpace_state]
      exact hst
    · change blkFirst c w + (ns w).sum + e.size c = _
      rw [Function.update_self, List.sum_append, List.sum_singleton, Nat.add_assoc]

end Store

end GenieSdk.Analysis.Kv
