import GenieSdk.Analysis.KvItemStream
import GenieSdk.Analysis.KvReserve

/-!
# The layout of the store

A block is a header and then items, one behind the other, with erased bytes behind the last one.
`HdrAt` says that a header as `kv_item_store` writes it stands at a position, `BlockOn` that a block is a
row of items of given sizes, and `scan_rule` is the rule for a traversal of such a block: it comes to every
item in turn and ends where the erased bytes begin.
-/

set_option autoImplicit false

namespace GenieSdk.Analysis.Kv

open GenieSdk.Lib
open GenieSdk.Model

/-- A header that `kv_item_store` wrote, of an item that takes `n` bytes. -/
structure HdrAt (c : KvConf) (f : Mem) (pos n : ℕ) : Prop where
  magic : f pos = itemMagicNum
  state : f (pos + 1) = itemStateNormal ∨ f (pos + 1) = itemStateDelete
  key_pos : 0 < (readItemHdr c f pos).keyLen
  key_le : (readItemHdr c f pos).keyLen ≤ itemMaxKeyLen
  val_pos : 0 < (readItemHdr c f pos).valLen
  val_le : (readItemHdr c f pos).valLen ≤ itemMaxValLen
  size : n = kvAlign (itemHdrSize c + (readItemHdr c f pos).keyLen + (readItemHdr c f pos).valLen)
  origin_lt : (readItemHdr c f pos).originOff < c.blkNums * c.blkSize
  origin_dvd : 4 ∣ (readItemHdr c f pos).originOff

/-- The item that the traversal makes of it. -/
def itemAt (c : KvConf) (f : Mem) (pos : ℕ) : KvItem where
  hdr := readItemHdr c f pos
  store := []
  len := (readItemHdr c f pos).keyLen + (readItemHdr c f pos).valLen
  pos := pos

/-- Headers of items of these sizes, one behind the other. -/
def LaidFrom (c : KvConf) (f : Mem) : ℕ → List ℕ → Prop
  | _, [] => True
  | pos, n :: ns => HdrAt c f pos n ∧ LaidFrom c f (pos + n) ns

/-- The block is a row of items of these sizes. -/
structure BlockOn (c : KvConf) (f : Mem) (i : ℕ) (ns : List ℕ) : Prop where
  magic : f (i * c.blkSize) = blkMagicNum
  state : f (i * c.blkSize + 1) = blkStateUsed ∨ f (i * c.blkSize + 1) = blkStateClean ∨
    f (i * c.blkSize + 1) = blkStateDirty
  laid : LaidFrom c f (blkFirst c i) ns
  fits : blkFirst c i + ns.sum < blkStop c i
  rest : ∀ a, blkFirst c i + ns.sum ≤ a → a < blkStop c i → f a = 0xFF

section Header

variable {c : KvConf} {f f' : Mem} {pos pos' n i : ℕ} {ns ms : List ℕ}

/-- A header depends on its bytes. -/
theorem readItemHdr_congr (h : ∀ k < itemHdrSize c, f' (pos' + k) = f (pos + k)) :
    readItemHdr c f' pos' = readItemHdr c f pos := by
  unfold itemHdrSize at h
  unfold readItemHdr
  have h0 := h 0 (by omega)
  rw [Nat.add_zero, Nat.add_zero] at h0
  rw [h0, h 1 (by omega), h 2 (by omega), h 3 (by omega)]
  have hval : readBytes f' (pos' + 4) 2 = readBytes f (pos + 4) 2 := by
    apply readBytes_congr
    intro k hk
    rw [Nat.add_assoc, Nat.add_assoc]
    exact h (4 + k) (by omega)
  have horg : readBytes f' (pos' + 6) (kvSizeBytes c) = readBytes f (pos + 6) (kvSizeBytes c) := by
    apply readBytes_congr
    intro k hk
    rw [Nat.add_assoc, Nat.add_assoc]
    exact h (6 + k) (by omega)
  rw [hval, horg]

/-- The header is all that counts, wherever it is. -/
theorem HdrAt.congr (h : HdrAt c f pos n) (heq : ∀ k < itemHdrSize c, f' (pos' + k) = f (pos + k)) :
    HdrAt c f' pos' n := by
  have hhdr := readItemHdr_congr heq
  have hmagic := congrArg ItemHdr.magic hhdr
  have hstate := congrArg ItemHdr.state hhdr
  change f' pos' = f pos at hmagic
  change f' (pos' + 1) = f (pos + 1) at hstate
  refine ⟨?_, ?_, ?_, ?_, ?_, ?_, ?_, ?_, ?_⟩
  · rw [hmagic, h.magic]
  · rw [hstate]
    exact h.state
  all_goals rw [hhdr]
  · exact h.key_pos
  · exact h.key_le
  · exact h.val_pos
  · exact h.val_le
  · exact h.size
  · exact h.origin_lt
  · exact h.origin_dvd

/-- What the traversal makes of the header. -/
theorem HdrAt.kvHead (h : HdrAt c f pos n) : kvHead c f pos =
    if f (pos + 1) = itemStateNormal then .item (itemAt c f pos) n else .dead n := by
  have hmagic : (readItemHdr c f pos).magic = itemMagicNum := h.magic
  have hk := h.key_pos
  have hv := h.val_pos
  have hkl := h.key_le
  have hvl := h.val_le
  unfold Kv.kvHead
  simp only [hmagic, ne_eq, not_true_eq_false, false_and, if_false]
  rw [if_neg (by omega), h.size]
  rfl

/-- An item is as long as its header says, rounded up to a multiple of four. -/
theorem HdrAt.size_spec (h : HdrAt c f pos n) :
    itemHdrSize c + (readItemHdr c f pos).keyLen + (readItemHdr c f pos).valLen ≤ n ∧ 4 ∣ n := by
  rw [h.size]
  have := kvAlign_spec (itemHdrSize c + (readItemHdr c f pos).keyLen + (readItemHdr c f pos).valLen)
  exact ⟨this.1, this.2.2⟩

/-- And longer than the header. -/
theorem HdrAt.hdr_lt (h : HdrAt c f pos n) : itemHdrSize c < n := by
  have hs := h.size_spec.1
  have hk := h.key_pos
  omega

@[simp] theorem laidFrom_nil : LaidFrom c f pos [] := trivial

/-- Two rows of items, one behind the other. -/
theorem laidFrom_append : LaidFrom c f pos (ns ++ ms) ↔
    LaidFrom c f pos ns ∧ LaidFrom c f (pos + ns.sum) ms := by
  induction ns generalizing pos with
  | nil => simp
  | cons n ns ih =>
    rw [List.cons_append, LaidFrom, LaidFrom, ih, List.sum_cons, Nat.add_assoc, and_assoc]

/-- A row of one item. -/
theorem laidFrom_singleton : LaidFrom c f pos [n] ↔ HdrAt c f pos n := by
  simp [LaidFrom]

/-- The header of one of the items. -/
theorem LaidFrom.hdrAt {done rest : List ℕ} (h : LaidFrom c f pos (done ++ n :: rest)) :
    HdrAt c f (pos + done.sum) n := (laidFrom_append.1 h).2.1

/-- A row of items depends on no other bytes. -/
theorem LaidFrom.congr (h : LaidFrom c f pos ns) (heq : ∀ a, pos ≤ a → a < pos + ns.sum → f' a = f a) :
    LaidFrom c f' pos ns := by
  induction ns generalizing pos with
  | nil => trivial
  | cons n ns ih =>
    rw [List.sum_cons] at heq
    have hlt := h.1.hdr_lt
    refine ⟨h.1.congr fun k hk => heq _ (by omega) (by omega), ih h.2 fun a ha hb => ?_⟩
    exact heq a (by omega) (by omega)

/-- The items take a multiple of four bytes. -/
theorem LaidFrom.dvd (h : LaidFrom c f pos ns) : 4 ∣ ns.sum := by
  induction ns generalizing pos with
  | nil => exact dvd_zero 4
  | cons n ns ih =>
    rw [List.sum_cons]
    exact h.1.size_spec.2.add (ih h.2)

/-- An address in the row lies in one of the items. -/
theorem LaidFrom.find {a : ℕ} (h : LaidFrom c f pos ns) (hlo : pos ≤ a) (hhi : a < pos + ns.sum) :
    ∃ done n rest, ns = done ++ n :: rest ∧ pos + done.sum ≤ a ∧ a < pos + done.sum + n := by
  induction ns generalizing pos with
  | nil => simp at hhi; omega
  | cons n ns ih =>
    by_cases ha : a < pos + n
    · exact ⟨[], n, ns, rfl, by simpa using hlo, by simpa using ha⟩
    · rw [List.sum_cons] at hhi
      obtain ⟨done, m, rest, rfl, hd, he⟩ := ih h.2 (by omega) (by omega)
      refine ⟨n :: done, m, rest, rfl, ?_, ?_⟩
      · rw [List.sum_cons]
        omega
      · rw [List.sum_cons]
        omega

/-- An item of the block has its header behind those before it. -/
theorem BlockOn.hdrAt {done rest : List ℕ} (h : BlockOn c f i (done ++ n :: rest)) :
    HdrAt c f (blkFirst c i + done.sum) n := h.laid.hdrAt

/-- Another memory with the same block. -/
theorem BlockOn.congr (h : BlockOn c f i ns)
    (heq : ∀ a, i * c.blkSize ≤ a → a < blkStop c i → f' a = f a) : BlockOn c f' i ns := by
  have hfits := h.fits
  have hfirst : i * c.blkSize + 4 = blkFirst c i := rfl
  refine ⟨?_, ?_, h.laid.congr fun a ha hb => ?_, hfits, fun a ha hb => ?_⟩
  · rw [heq _ (by omega) (by omega), h.magic]
  · rw [heq _ (by omega) (by omega)]
    exact h.state
  · exact heq a (by omega) (by omega)
  · rw [heq a (by omega) hb]
    exact h.rest a ha hb

end Header

/-! ## The traversal of such a block -/

section Rule

variable {c : KvConf} {func : ItemFunc} {i : ℕ} {s : KvMgr} {ns : List ℕ}
  {J : List ℕ → KvMgr → Prop} {Q : Option KvItem × KvMgr → Prop}

/-- What the items of a block and the callback have to keep, for `J` to hold of the items that are passed and `Q` of the
result. -/
structure ScanKeeps (c : KvConf) (func : ItemFunc) (i : ℕ) (ns : List ℕ) (J : List ℕ → KvMgr → Prop)
    (Q : Option KvItem × KvMgr → Prop) : Prop where
  fits : blkFirst c i + ns.sum < blkStop c i
  read : ∀ done n rest t, ns = done ++ n :: rest → J done t → HdrAt c t.flash (blkFirst c i + done.sum) n
  erased : ∀ t, J ns t → ∀ a, blkFirst c i + ns.sum ≤ a → a < blkStop c i → t.flash a = 0xFF
  dead : ∀ done n rest t, ns = done ++ n :: rest → J done t →
    t.flash (blkFirst c i + done.sum + 1) = itemStateDelete → J (done ++ [n]) (kvMarkDirty c t i)
  item : ∀ done n rest t, ns = done ++ n :: rest → J done t →
    t.flash (blkFirst c i + done.sum + 1) = itemStateNormal → ∀ res item' t',
    func t (itemAt c t.flash (blkFirst c i + done.sum)) = (res, item', t') →
    (res = .cont → J (done ++ [n]) t') ∧ (res ≠ .cont → Q (if res = .ok then some item' else none, t'))
  stop : ∀ t, J ns t → Q (none, kvTraverseEnd c t i (blkFirst c i + ns.sum))

/-- The rest of a traversal, by induction on the items that are still ahead. -/
theorem scan_rule_from (hk : ScanKeeps c func i ns J Q) {done rest : List ℕ}
    {calls : List (KvMgr × KvItem)} {r : Option KvItem × KvMgr}
    (hns : ns = done ++ rest) (hJ : J done s)
    (hscan : Scan c func i (blkFirst c i + done.sum) s calls r) : Q r := by
  induction rest generalizing done s calls with
  | nil =>
    rw [List.append_nil] at hns
    subst hns
    have hhead := fun hin => kvHead_erased (c := c) (i := i) (hk.erased s hJ) hin
    cases hscan with
    | out _ => exact hk.stop s hJ
    | erased _ _ => exact hk.stop s hJ
    | garbage hin h _ => exact KvHead.noConfusion ((hhead hin).symm.trans h)
    | dead hin h _ => exact KvHead.noConfusion ((hhead hin).symm.trans h)
    | stopped hin h _ _ => exact KvHead.noConfusion ((hhead hin).symm.trans h)
    | cont hin h _ _ => exact KvHead.noConfusion ((hhead hin).symm.trans h)
  | cons n rest ih =>
    have hdr := hk.read done n rest s hns hJ
    have hnext : ns = (done ++ [n]) ++ rest := by rw [hns, List.append_assoc]; rfl
    have hsum : blkFirst c i + (done ++ [n]).sum = blkFirst c i + done.sum + n := by
      rw [List.sum_append, List.sum_singleton, Nat.add_assoc]
    have hin : HdrFits c i (blkFirst c i + done.sum) := by
      have hfits := hk.fits
      rw [hns, List.sum_append, List.sum_cons] at hfits
      have hlt := hdr.hdr_lt
      unfold HdrFits
      omega
    have hhead := hdr.kvHead
    by_cases hst : s.flash (blkFirst c i + done.sum + 1) = itemStateNormal
    · rw [if_pos hst] at hhead
      cases hscan with
      | out h => exact absurd hin h
      | erased _ h => exact KvHead.noConfusion (hhead.symm.trans h)
      | garbage _ h _ => exact KvHead.noConfusion (hhead.symm.trans h)
      | dead _ h _ => exact KvHead.noConfusion (hhead.symm.trans h)
      | stopped _ h hcall hres =>
        cases hhead.symm.trans h
        exact (hk.item done n rest s hns hJ hst _ _ _ hcall).2 hres
      | cont _ h hcall hrun =>
        cases hhead.symm.trans h
        rw [← hsum] at hrun
        exact ih hnext ((hk.item done n rest s hns hJ hst _ _ _ hcall).1 rfl) hrun
    · rw [if_neg hst] at hhead
      cases hscan with
      | out h => exact absurd hin h
      | erased _ h => exact KvHead.noConfusion (hhead.symm.trans h)
      | garbage _ h _ => exact KvHead.noConfusion (hhead.symm.trans h)
      | dead _ h hrun =>
        cases hhead.symm.trans h
        rw [← hsum] at hrun
        exact ih hnext (hk.dead done n rest s hns hJ (hdr.state.resolve_left hst)) hrun
      | stopped _ h _ _ => exact KvHead.noConfusion (hhead.symm.trans h)
      | cont _ h _ _ => exact KvHead.noConfusion (hhead.symm.trans h)

/-- **The traversal rule.** What holds at the start and is kept by every item, deleted or handed to the
callback, holds when the traversal returns. -/
theorem scan_rule (hk : ScanKeeps c func i ns J Q) (hJ : J [] s) : Q (kvItemTraverse c func s i) := by
  obtain ⟨calls, hscan⟩ := scan_kvItemTraverse c func i s
  exact scan_rule_from hk (List.nil_append ns).symm hJ hscan

end Rule

end GenieSdk.Analysis.Kv
