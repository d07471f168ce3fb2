import GenieSdk.Analysis.KvTraverse

/-!
# The items of a block

`kv_item_store` appends items to a block and `kv_item_traverse` reads them back. The two agree on
the length of an item, but the traversal takes an item with an empty key for garbage, and
`aos_kv_set` accepts such a key: **the items appended to an erased block are read back, each where
it was put and with its own key and value, if and only if none of the keys is empty**
(`item_stream_agrees`).
-/

set_option autoImplicit false

namespace GenieSdk.Analysis.Kv

open GenieSdk.Model GenieSdk.Lib

/-- The parameters of one `kv_item_store`. -/
structure KvEntry where
  key : List UInt8
  val : List UInt8
  originOff : ℕ

namespace KvEntry

/-- What `aos_kv_set` checks, and that the old offset is a `kv_size_t`. SRCLINE: kvmgr.c:960-966 -/
structure Passes (c : KvConf) (e : KvEntry) : Prop where
  key_le : e.key.length ≤ itemMaxKeyLen
  val_pos : 0 < e.val.length
  val_le : e.val.length ≤ itemMaxValLen
  origin_lt : e.originOff < 256 ^ kvSizeBytes c

/-- The space the item takes. -/
def size (c : KvConf) (e : KvEntry) : ℕ :=
  kvAlign (itemHdrSize c + e.key.length + e.val.length)

def bytes (c : KvConf) (e : KvEntry) : List UInt8 := kvStoreBytes c e.key e.val e.originOff

end KvEntry

/-- The space the items take. -/
def entriesSize (c : KvConf) (es : List KvEntry) : ℕ := (es.map (KvEntry.size c)).sum

/-- One store after the other; all of them have to succeed. -/
def kvStoreAll (c : KvConf) : KvMgr → List KvEntry → Option KvMgr
  | s, [] => some s
  | s, e :: es =>
    match kvItemStore c s e.key e.val e.originOff with
    | some (.ok, s) => kvStoreAll c s es
    | _ => none

/-- Block `i` is written up to `pos`, where the next item goes, and erased from there on. -/
structure WrittenTo (c : KvConf) (i pos : ℕ) (s : KvMgr) : Prop where
  blk : i < c.blkNums
  first : blkFirst c i ≤ pos
  stop : pos < blkStop c i
  writePos : s.writePos = pos
  space : (s.blockInfo i).space = blkStop c i - pos
  rest : ∀ a, pos ≤ a → a < blkStop c i → s.flash a = 0xFF

/-- An item with its position, key and value. -/
abbrev Placed := ℕ × List UInt8 × List UInt8

/-- The items one behind the other from `pos` on. -/
def placed (c : KvConf) : ℕ → List KvEntry → List Placed
  | _, [] => []
  | pos, e :: es => (pos, e.key, e.val) :: placed c (pos + e.size c) es

/-- What a callback finds in the flash for the item it is given. -/
def seen (c : KvConf) (call : KvMgr × KvItem) : Placed :=
  let pos := call.2.pos + itemHdrSize c
  (call.2.pos, readBytes call.1.flash pos call.2.hdr.keyLen,
    readBytes call.1.flash (pos + call.2.hdr.keyLen) call.2.hdr.valLen)

/-- A traversal of block `i` with a callback that continues and leaves the items behind its own
alone visits the entries in order and finds the space that is left. -/
def ReadBack (c : KvConf) (s : KvMgr) (i : ℕ) (es : List KvEntry) : Prop :=
  ∀ func, Keeps func → (∀ s item, (func s item).1 = .cont) →
    ∃ calls, Scan c func i (blkFirst c i) s calls (kvItemTraverse c func s i) ∧
      calls.map (seen c) = placed c (blkFirst c i) es ∧
      ((kvItemTraverse c func s i).2.blockInfo i).space =
        blkStop c i - (blkFirst c i + entriesSize c es)

section Store

variable {c : KvConf} {i pos : ℕ} {s : KvMgr} {e : KvEntry} {es : List KvEntry}

@[simp] theorem entriesSize_nil : entriesSize c [] = 0 := rfl

@[simp] theorem entriesSize_cons : entriesSize c (e :: es) = e.size c + entriesSize c es := by
  simp [entriesSize]

/-- An item is as long as its header, key and value, rounded up to a multiple of four. -/
theorem size_spec (c : KvConf) (e : KvEntry) : itemHdrSize c + e.key.length + e.val.length ≤
    e.size c ∧ e.size c < itemHdrSize c + e.key.length + e.val.length + 4 ∧ 4 ∣ e.size c :=
  kvAlign_spec _

/-- Its bytes are as many. -/
theorem length_entryBytes (c : KvConf) (e : KvEntry) : (e.bytes c).length = e.size c := by
  have hs := (size_spec c e).1
  simp only [KvEntry.bytes, kvStoreBytes, List.length_append, List.length_cons, List.length_nil,
    List.length_replicate, length_leBytes]
  unfold KvEntry.size itemHdrSize at *
  omega

/-- A block is smaller than the range of `kv_size_t`. -/
theorem blkSize_lt (h : i < c.blkNums) : c.blkSize < 2 ^ (8 * kvSizeBytes c) := by
  unfold kvSizeBytes
  split
  case isTrue =>
    calc c.blkSize = 1 * c.blkSize := (Nat.one_mul _).symm
      _ ≤ c.blkNums * c.blkSize := Nat.mul_le_mul_right _ (Nat.one_le_of_lt h)
      _ < 2 ^ 32 := c.total
  case isFalse hsmall =>
    push Not at hsmall
    exact Nat.pow_lt_pow_right (by norm_num) hsmall.1

/-- A difference without a wrap. -/
theorem kvSizeSub_eq {a b : ℕ} (hb : b ≤ a) (ha : a < 2 ^ (8 * kvSizeBytes c)) :
    kvSizeSub c a b = a - b := by
  unfold kvSizeSub
  rw [show a + 2 ^ (8 * kvSizeBytes c) - b = a - b + 2 ^ (8 * kvSizeBytes c) by omega,
    Nat.add_mod_right, Nat.mod_eq_of_lt (by omega)]

/-- An offset in a block tells the block. -/
theorem div_blkSize (h₁ : blkFirst c i ≤ pos) (h₂ : pos < blkStop c i) : pos / c.blkSize = i := by
  unfold blkFirst at h₁
  unfold blkStop at h₂
  apply Nat.div_eq_of_lt_le
  · omega
  · rw [Nat.add_mul, Nat.one_mul]
    exact h₂

/-- An item that fits goes to the write position. -/
theorem kvCalcPosition_writtenTo (h : WrittenTo c i pos s) {len : ℕ} (hfit : pos + len < blkStop c i) :
    ∃ s', kvCalcPosition c s len = some (pos, s') ∧ s'.flash = s.flash ∧
      s'.blockInfo = s.blockInfo := by
  have hidx : s.writePos / c.blkSize = i := by
    rw [h.writePos]
    exact div_blkSize h.first h.stop
  have hspace := h.space
  unfold kvCalcPosition
  dsimp only
  rw [hidx, if_pos (by omega)]
  split
  case isFalse =>
    rw [h.writePos]
    exact ⟨s, rfl, rfl, rfl⟩
  case isTrue =>
    rw [h.writePos]
    refine ⟨_, rfl, ?_, ?_⟩ <;> unfold kvTriggerGc <;> split <;> rfl

/-- One store. -/
theorem kvItemStore_writtenTo (h : WrittenTo c i pos s) (hfit : pos + e.size c < blkStop c i) :
    ∃ s', kvItemStore c s e.key e.val e.originOff = some (.ok, s') ∧
      s'.flash = writeBytes s.flash pos (e.bytes c) ∧ WrittenTo c i (pos + e.size c) s' := by
  obtain ⟨t, hcalc, hflash, hinfo⟩ := kvCalcPosition_writtenTo h hfit
  have hpos : 0 < pos := lt_of_lt_of_le (Nat.add_pos_right _ (by decide)) h.first
  have hidx : (pos + e.size c) / c.blkSize = i :=
    div_blkSize (h.first.trans (Nat.le_add_right _ _)) hfit
  have hlt := blkSize_lt h.blk
  have hspace : kvSizeSub c (t.blockInfo i).space (e.size c) = blkStop c i - (pos + e.size c) := by
    have hf := h.first
    have hst := h.stop
    have hsp := h.space
    unfold blkStop blkFirst at *
    rw [hinfo, kvSizeSub_eq (by omega) (by omega)]
    omega
  let w : KvMgr := { kvOsPartitionWrite t pos (e.bytes c) with writePos := pos + e.size c }
  have hstore : kvItemStore c s e.key e.val e.originOff =
      some (.ok, w.setSpace i (blkStop c i - (pos + e.size c))) := by
    have hidx' : w.writePos / c.blkSize = i := hidx
    have hspace' : kvSizeSub c (w.blockInfo i).space (e.size c) =
        blkStop c i - (pos + e.size c) := hspace
    unfold kvItemStore
    simp only [show kvCalcPosition c s (kvAlign (itemHdrSize c + e.key.length + e.val.length)) =
      some (pos, t) from hcalc, if_pos hpos]
    change some (KvRes.ok, w.setSpace (w.writePos / c.blkSize)
      (kvSizeSub c (w.blockInfo (w.writePos / c.blkSize)).space (e.size c))) = _
    rw [hidx', hspace']
  have hwritten : (w.setSpace i (blkStop c i - (pos + e.size c))).flash =
      writeBytes s.flash pos (e.bytes c) := by
    rw [← hflash]
    rfl
  refine ⟨_, hstore, hwritten, h.blk, h.first.trans (Nat.le_add_right _ _), hfit, rfl, ?_, ?_⟩
  · simp [KvMgr.setSpace, KvMgr.setInfo]
  · intro a ha hb
    rw [hwritten, writeBytes_outside _ _ _ _ (.inr (by rw [length_entryBytes]; exact ha))]
    exact h.rest a (le_trans (Nat.le_add_right _ _) ha) hb

/-- All of them. -/
theorem kvStoreAll_writtenTo (h : WrittenTo c i pos s) (hfit : pos + entriesSize c es < blkStop c i) :
    ∃ s', kvStoreAll c s es = some s' ∧ WrittenTo c i (pos + entriesSize c es) s' ∧
      (∀ a, a < pos → s'.flash a = s.flash a) ∧
      Stands s'.flash pos (es.flatMap (KvEntry.bytes c)) := by
  induction es generalizing s pos with
  | nil => exact ⟨s, rfl, h, fun _ _ => rfl, stands_nil⟩
  | cons e es ih =>
    rw [entriesSize_cons] at hfit
    obtain ⟨t, hstore, hflash, ht⟩ := kvItemStore_writtenTo (e := e) h (by omega)
    obtain ⟨s', hall, hs', hsame, hstands⟩ := ih ht (by omega)
    refine ⟨s', ?_, ?_, ?_, ?_⟩
    · simp only [kvStoreAll, hstore]
      exact hall
    · rw [entriesSize_cons, ← Nat.add_assoc]
      exact hs'
    · intro a ha
      rw [hsame a (by omega), hflash, writeBytes_outside _ _ _ _ (.inl ha)]
    · rw [List.flatMap_cons, stands_append, length_entryBytes]
      refine ⟨?_, hstands⟩
      have hbytes : Stands t.flash pos (e.bytes c) := by
        rw [hflash]
        exact stands_write
      refine hbytes.congr fun a _ hb => hsame a ?_
      rw [length_entryBytes] at hb
      exact hb

end Store

section Traverse

variable {c : KvConf} {f : Mem} {i pos : ℕ} {s : KvMgr} {e : KvEntry} {es : List KvEntry}

/-- The header that a stored item shows. -/
theorem readItemHdr_entry (he : e.Passes c) (h : Stands f pos (e.bytes c)) :
    readItemHdr c f pos =
      { magic := itemMagicNum, state := itemStateNormal, crc := calcCrc8 (e.key ++ e.val)
        keyLen := e.key.length, valLen := e.val.length, originOff := e.originOff } ∧
    Stands f (pos + itemHdrSize c) e.key ∧
    Stands f (pos + itemHdrSize c + e.key.length) e.val := by
  unfold KvEntry.bytes kvStoreBytes at h
  simp only [stands_append, stands_cons, List.length_append, List.length_cons, List.length_nil,
    length_leBytes] at h
  obtain ⟨⟨⟨⟨⟨⟨hmagic, hstate, hcrc, hkl, -⟩, hvl⟩, horg⟩, hkey⟩, hval⟩, -⟩ := h
  have hk := he.key_le
  have hv := he.val_le
  unfold itemMaxKeyLen at hk
  unfold itemMaxValLen at hv
  have hvl' : leVal (readBytes f (pos + 4) 2) = e.val.length := by
    have hlen : (leBytes 2 e.val.length).length = 2 := length_leBytes 2 _
    unfold Stands at hvl
    rw [hlen] at hvl
    rw [show pos + 4 = pos + (0 + 1 + 1 + 1 + 1) by rfl, hvl]
    exact leVal_leBytes (by omega)
  have horg' : leVal (readBytes f (pos + 6) (kvSizeBytes c)) = e.originOff := by
    unfold Stands at horg
    rw [length_leBytes] at horg
    rw [show pos + 6 = pos + (0 + 1 + 1 + 1 + 1 + 2) by rfl, horg]
    exact leVal_leBytes he.origin_lt
  have hkl' : (f (pos + 3)).toNat = e.key.length := by
    rw [show pos + 3 = pos + 1 + 1 + 1 by rfl, hkl]
    simp only [UInt8.toNat_ofNat']
    omega
  refine ⟨?_, ?_, ?_⟩
  · unfold readItemHdr
    rw [hvl', horg', hkl', hmagic, hstate, show pos + 2 = pos + 1 + 1 by rfl, hcrc]
  · rw [show pos + itemHdrSize c = pos + (0 + 1 + 1 + 1 + 1 + 2 + kvSizeBytes c) by
      unfold itemHdrSize; omega]
    exact hkey
  · rw [show pos + itemHdrSize c + e.key.length =
      pos + (0 + 1 + 1 + 1 + 1 + 2 + kvSizeBytes c + e.key.length) by unfold itemHdrSize; omega]
    exact hval

/-- What the traversal makes of a stored item. -/
theorem kvHead_entry (he : e.Passes c) (hkey : e.key ≠ []) (h : Stands f pos (e.bytes c)) :
    ∃ item, kvHead c f pos = .item item (e.size c) := by
  obtain ⟨hhdr, -, -⟩ := readItemHdr_entry he h
  have hk := he.key_le
  have hv := he.val_le
  have hv0 := he.val_pos
  have hk0 := List.length_pos_iff.2 hkey
  refine ⟨KvItem.mk (readItemHdr c f pos) [] (e.key.length + e.val.length) pos, ?_⟩
  unfold kvHead
  rw [hhdr]
  simp only [ne_eq, not_true_eq_false, false_and, if_false, if_true]
  rw [if_neg (by omega)]
  rfl

/-- Behind the last item the block is erased. -/
theorem kvHead_erased (h : ∀ a, pos ≤ a → a < blkStop c i → f a = 0xFF) (hin : HdrFits c i pos) :
    kvHead c f pos = .erased := by
  unfold HdrFits at hin
  have hmagic : f pos = 0xFF := h pos (le_refl _) (by omega)
  have hstate : f (pos + 1) = 0xFF := h (pos + 1) (by omega) (by
    obtain h8 | h8 := itemHdrSize_cases c <;> omega)
  unfold kvHead readItemHdr
  simp only [hmagic, hstate]
  rfl

/-- **The run of the traversal over stored items**, by induction on what is still to be read. -/
theorem scan_entries {func : ItemFunc} (hk : Keeps func) (hcont : ∀ s item, (func s item).1 = .cont)
    {calls : List (KvMgr × KvItem)} {r : Option KvItem × KvMgr} (hes : ∀ e ∈ es, e.Passes c)
    (hkeys : ∀ e ∈ es, e.key ≠ []) (hstands : Stands s.flash pos (es.flatMap (KvEntry.bytes c)))
    (hstop : pos + entriesSize c es < blkStop c i)
    (hrest : ∀ a, pos + entriesSize c es ≤ a → a < blkStop c i → s.flash a = 0xFF)
    (hscan : Scan c func i pos s calls r) : calls.map (seen c) = placed c pos es ∧
      (r.2.blockInfo i).space = blkStop c i - (pos + entriesSize c es) := by
  induction es generalizing pos s calls with
  | nil =>
    have hspace : ((kvTraverseEnd c s i pos).blockInfo i).space = blkStop c i - pos := by
      have hlt : pos < i * c.blkSize + c.blkSize := hstop
      simp [kvTraverseEnd, KvMgr.setSpace, KvMgr.setInfo, hlt, blkStop]
    have hhead := fun hin : HdrFits c i pos => kvHead_erased (i := i) hrest hin
    cases hscan with
    | out _ => exact ⟨rfl, hspace⟩
    | erased _ _ => exact ⟨rfl, hspace⟩
    | garbage hin h _ => exact KvHead.noConfusion ((hhead hin).symm.trans h)
    | dead hin h _ => exact KvHead.noConfusion ((hhead hin).symm.trans h)
    | stopped hin h _ _ => exact KvHead.noConfusion ((hhead hin).symm.trans h)
    | cont hin h _ _ => exact KvHead.noConfusion ((hhead hin).symm.trans h)
  | cons e es ih =>
    rw [entriesSize_cons] at hstop hrest ⊢
    rw [List.flatMap_cons, stands_append, length_entryBytes] at hstands
    have he := hes e (by simp)
    have hsize := (size_spec c e).1
    have hin : HdrFits c i pos := by
      unfold HdrFits
      have := he.val_pos
      omega
    obtain ⟨item, hhead⟩ := kvHead_entry he (hkeys e (by simp)) hstands.1
    obtain ⟨hpos, hhdr, -⟩ := kvHead_item hhead
    obtain ⟨hread, hkey, hval⟩ := readItemHdr_entry he hstands.1
    cases hscan with
    | out h => exact absurd hin h
    | erased _ h => exact KvHead.noConfusion (hhead.symm.trans h)
    | garbage _ h _ => exact KvHead.noConfusion (hhead.symm.trans h)
    | dead _ h _ => exact KvHead.noConfusion (hhead.symm.trans h)
    | stopped _ h hcall hres =>
      refine absurd ?_ hres
      rw [← hcont s _, hcall]
    | @cont _ _ _ s' _ item' calls _ _ h hcall hrun =>
      cases hhead.symm.trans h
      -- what is ahead is as it was before the call
      have hsame : ∀ a, pos + e.size c ≤ a → s'.flash a = s.flash a := by
        intro a ha
        have hkeep := hk s item a
        rw [hcall] at hkeep
        apply hkeep
        obtain h8 | h8 := itemHdrSize_cases c <;> omega
      obtain ⟨hcalls, hspace⟩ := ih (fun e he => hes e (List.mem_cons_of_mem _ he))
        (fun e he => hkeys e (List.mem_cons_of_mem _ he))
        (hstands.2.congr fun a ha _ => hsame a ha) (by omega)
        (fun a ha hb => by rw [hsame a (by omega)]; exact hrest a (by omega) hb) hrun
      refine ⟨?_, by rw [hspace, Nat.add_assoc]⟩
      have hseen : seen c (s, item) = (pos, e.key, e.val) := by
        unfold seen
        simp only
        rw [hpos, hhdr, hread]
        exact Prod.ext rfl (Prod.ext hkey hval)
      rw [List.map_cons, hcalls, hseen]
      rfl

/-- An item with an empty key is not visited. -/
theorem not_readBack (h : ∃ e ∈ es, e.key = []) : ¬ ReadBack c s i es := by
  intro hread
  obtain ⟨calls, hscan, hcalls, -⟩ := hread (itemDelAllCb c (some [])) (keeps_delAll (some []))
    (itemDelAllCb_cont (some []))
  have hplaced : ∀ pos es, (∃ e ∈ es, e.key = []) → ∃ p ∈ placed c pos es, p.2.1 = [] := by
    intro pos es
    induction es generalizing pos with
    | nil => simp
    | cons e es ih =>
      rintro ⟨e', hmem, hkey⟩
      rcases List.mem_cons.1 hmem with rfl | hmem
      · exact ⟨(pos, e'.key, e'.val), List.mem_cons_self, hkey⟩
      · obtain ⟨p, hp, hnil⟩ := ih (pos + e.size c) ⟨e', hmem, hkey⟩
        exact ⟨p, List.mem_cons_of_mem _ hp, hnil⟩
  obtain ⟨p, hp, hnil⟩ := hplaced (blkFirst c i) es h
  rw [← hcalls, List.mem_map] at hp
  obtain ⟨⟨t, item⟩, hmem, rfl⟩ := hp
  obtain ⟨pos, len, -, -, hhead⟩ := hscan.mem_calls.1 hmem
  obtain ⟨-, -, -, -, hkey, -⟩ := kvHead_item hhead
  have hlen := congrArg List.length hnil
  simp only [seen, length_readBytes, List.length_nil] at hlen
  omega

/-- **Writer and parser agree, but for empty keys.** Into an erased block, entries that
`aos_kv_set` accepts and for which the block has room are all stored; the traversal reads exactly
these back, in order, and finds the space behind them, if and only if no key is empty. -/
theorem item_stream_agrees (h : WrittenTo c i (blkFirst c i) s) (hes : ∀ e ∈ es, e.Passes c)
    (hfit : blkFirst c i + entriesSize c es < blkStop c i) :
    ∃ s', kvStoreAll c s es = some s' ∧ (ReadBack c s' i es ↔ ∀ e ∈ es, e.key ≠ []) := by
  obtain ⟨s', hall, hs', -, hstands⟩ := kvStoreAll_writtenTo h hfit
  refine ⟨s', hall, ?_, ?_⟩
  · intro hread e he hkey
    exact not_readBack ⟨e, he, hkey⟩ hread
  · intro hkeys func hk hcont
    obtain ⟨calls, hscan⟩ := scan_kvItemTraverse c func i s'
    have hrun := scan_entries hk hcont hes hkeys hstands hfit hs'.rest hscan
    exact ⟨calls, hscan, hrun.1, hrun.2⟩

/-- A partition whose first block was just formatted. -/
def freshState : KvMgr where
  flash := fun a => if a = 0 then 0x4B else if a = 1 then 0xCC else if a < 4 then 0 else 0xFF
  trace := []
  gcTrigger := false
  gcWaiter := 0
  cleanBlkNums := 1
  writePos := 4
  blockInfo := fun _ => { space := 4092, state := blkStateUsed }

/-- In a fresh store nothing is written. -/
theorem freshState_writtenTo : WrittenTo smallConf 0 (blkFirst smallConf 0) freshState where
  blk := by decide
  first := le_refl _
  stop := by decide
  writePos := rfl
  space := rfl
  rest := by
    intro a ha _
    change 4 ≤ a at ha
    simp only [freshState]
    rw [if_neg (by omega), if_neg (by omega), if_neg (by omega)]

/-- Two items. -/
def twoEntries : List KvEntry :=
  [{ key := [0x61], val := [1, 2, 3], originOff := 0 },
    { key := [0x62, 0x63], val := [0x49, 0xEE], originOff := 4 }]

/-- Two entries are written to a fresh store: they are read back if and only if no key is empty. -/
theorem item_stream_agrees_two : WrittenTo smallConf 0 (blkFirst smallConf 0) freshState ∧
    ∃ s', kvStoreAll smallConf freshState twoEntries = some s' ∧
      (ReadBack smallConf s' 0 twoEntries ↔ ∀ e ∈ twoEntries, e.key ≠ []) := by
  refine ⟨freshState_writtenTo, item_stream_agrees freshState_writtenTo ?_ (by decide)⟩
  intro e he
  simp only [twoEntries, List.mem_cons, List.not_mem_nil, or_false] at he
  rcases he with rfl | rfl
  · exact ⟨by decide, by decide, by decide, by decide⟩
  · exact ⟨by decide, by decide, by decide, by decide⟩

def emptyKeyEntry : KvEntry := { key := [], val := [1], originOff := 0 }

/-- One item with an empty key is accepted and stored, but not read back. -/
theorem item_stream_empty_key : emptyKeyEntry.Passes smallConf ∧
    ∃ s', kvStoreAll smallConf freshState [emptyKeyEntry] = some s' ∧
      ¬ ReadBack smallConf s' 0 [emptyKeyEntry] := by
  refine ⟨⟨by decide, by decide, by decide, by decide⟩, ?_⟩
  have hfit : blkFirst smallConf 0 + entriesSize smallConf [emptyKeyEntry] <
      blkStop smallConf 0 := by decide
  obtain ⟨s', hall, -⟩ := kvStoreAll_writtenTo freshState_writtenTo hfit
  exact ⟨s', hall, not_readBack ⟨_, List.mem_singleton_self _, rfl⟩⟩

end Traverse

end GenieSdk.Analysis.Kv
