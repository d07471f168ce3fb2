import GenieSdk.Model.KvMgr
import Mathlib.Logic.Relation

/-!
# The scan of a block

`kv_item_traverse` reads one header after the other. `kvHead` is what it makes of a header,
`Scan` is the whole run with the items it passes to its callback, and `Hdrs` are the places where
it reads a header. **The loop ends on every content of the block** (`scan_kvItemTraverse`), but
the lengths of a header are not compared with the end of the block: **the items that are passed to the
callbacks lie in the block if and only if no header of the block claims more; for the recovery of
`kv_init`, which deletes items while it scans, this is so if it clears no byte in the lengths of a later
header** (`item_traverse_inside`).
-/

set_option autoImplicit false

namespace GenieSdk.Analysis.Kv

open GenieSdk.Model GenieSdk.Lib

section Sizes

/-- A block has at least 4096 bytes. -/
theorem blkSize_ge (c : KvConf) : 4096 ≤ c.blkSize := by
  unfold KvConf.blkSize
  calc 4096 = 2 ^ 12 := by norm_num
    _ ≤ 2 ^ c.blkBits := Nat.pow_le_pow_right (by norm_num) c.sector

/-- The size of a block is a multiple of four. -/
theorem blkSize_dvd (c : KvConf) : 4 ∣ c.blkSize := by
  have h : 2 ≤ c.blkBits := le_trans (by norm_num) c.sector
  exact pow_dvd_pow 2 h

/-- An item header has 8 bytes, or 10. -/
theorem itemHdrSize_cases (c : KvConf) : itemHdrSize c = 8 ∨ itemHdrSize c = 10 := by
  unfold itemHdrSize kvSizeBytes
  split
  case isTrue => exact .inr rfl
  case isFalse => exact .inl rfl

/-- The aligned length is the next multiple of four. -/
theorem kvAlign_spec (x : ℕ) : x ≤ kvAlign x ∧ kvAlign x < x + 4 ∧ 4 ∣ kvAlign x := by
  unfold kvAlign
  refine ⟨by omega, by omega, ?_⟩
  exact ⟨(x + 3) / 4, by ring⟩

end Sizes

/-- Where the first header of block `i` is. -/
def blkFirst (c : KvConf) (i : ℕ) : ℕ := i * c.blkSize + blkHdrSize

/-- The end of block `i`. -/
def blkStop (c : KvConf) (i : ℕ) : ℕ := i * c.blkSize + c.blkSize

/-- The test of the loop: another header fits. -/
def HdrFits (c : KvConf) (i pos : ℕ) : Prop := pos + itemHdrSize c < blkStop c i

instance (c : KvConf) (i pos : ℕ) : Decidable (HdrFits c i pos) :=
  inferInstanceAs (Decidable (_ < _))

/-- The first header of a block fits. -/
theorem hdrFits_first (c : KvConf) (i : ℕ) : HdrFits c i (blkFirst c i) := by
  have := blkSize_ge c
  unfold HdrFits blkFirst blkStop blkHdrSize
  obtain h | h := itemHdrSize_cases c <;> omega

/-- What the traversal makes of a header. -/
inductive KvHead
  | erased
  | garbage
  | dead (len : ℕ)
  | item (item : KvItem) (len : ℕ)

/-- The header at `pos`. SRCLINE: kvmgr.c:476-527 -/
def kvHead (c : KvConf) (f : Mem) (pos : ℕ) : KvHead :=
  let hdr := readItemHdr c f pos
  if hdr.magic ≠ itemMagicNum ∧ hdr.magic = 0xFF ∧ hdr.state = 0xFF then .erased
  else
    let valLen := if hdr.magic ≠ itemMagicNum then 0xFFFF else hdr.valLen
    if itemMaxValLen < valLen ∨ itemMaxKeyLen < hdr.keyLen ∨ valLen = 0 ∨ hdr.keyLen = 0 then
      .garbage
    else if hdr.state = itemStateNormal then
      .item { hdr := hdr, store := [], len := hdr.keyLen + hdr.valLen, pos := pos }
        (kvAlign (itemHdrSize c + hdr.keyLen + valLen))
    else .dead (kvAlign (itemHdrSize c + hdr.keyLen + valLen))

section Head

variable {c : KvConf} {f f' : Mem} {pos len i : ℕ} {item : KvItem}

/-- What holds of an item that the traversal passes on. -/
theorem kvHead_item (h : kvHead c f pos = .item item len) : item.pos = pos ∧
    item.hdr = readItemHdr c f pos ∧ item.len = item.hdr.keyLen + item.hdr.valLen ∧
    len = kvAlign (itemHdrSize c + item.hdr.keyLen + item.hdr.valLen) ∧
    0 < item.hdr.keyLen ∧ item.hdr.keyLen ≤ itemMaxKeyLen ∧ 0 < item.hdr.valLen ∧
    item.hdr.valLen ≤ itemMaxValLen := by
  unfold kvHead at h
  dsimp only at h
  by_cases hmagic : (readItemHdr c f pos).magic = itemMagicNum
  · simp only [hmagic, ne_eq, not_true_eq_false, false_and, if_false] at h
    split at h
    case isTrue => cases h
    case isFalse hlens =>
      split at h
      case isFalse => cases h
      case isTrue =>
        cases h
        push Not at hlens
        exact ⟨rfl, rfl, rfl, rfl, Nat.pos_of_ne_zero hlens.2.2.2, hlens.2.1,
          Nat.pos_of_ne_zero hlens.2.2.1, hlens.1⟩
  · have hlens : itemMaxValLen < 0xFFFF := by decide
    simp only [ne_eq, hmagic, not_false_eq_true, if_true, hlens, true_or] at h
    split at h <;> cases h

/-- Only normal items are passed on. -/
theorem kvHead_item_state (h : kvHead c f pos = .item item len) : f (pos + 1) = itemStateNormal := by
  unfold kvHead at h
  dsimp only at h
  split at h
  · cases h
  · generalize (if (readItemHdr c f pos).magic ≠ itemMagicNum then 0xFFFF
      else (readItemHdr c f pos).valLen) = valLen at h
    split at h
    · cases h
    · split at h
      · next hstate => exact hstate
      · cases h

/-- A dead item has a positive length, a multiple of four. -/
theorem kvHead_dead (h : kvHead c f pos = .dead len) : 0 < len ∧ 4 ∣ len := by
  unfold kvHead at h
  dsimp only at h
  have hh : 0 < itemHdrSize c := by
    obtain h | h := itemHdrSize_cases c <;> omega
  split_ifs at h <;> try cases h
  · exact ⟨lt_of_lt_of_le (by omega) (kvAlign_spec _).1, (kvAlign_spec _).2.2⟩
  · exact ⟨lt_of_lt_of_le (by omega) (kvAlign_spec _).1, (kvAlign_spec _).2.2⟩

/-- The header is all that is read. -/
theorem kvHead_congr (h : ∀ a, pos ≤ a → a < pos + itemHdrSize c → f' a = f a) :
    kvHead c f' pos = kvHead c f pos := by
  have hhdr : readItemHdr c f' pos = readItemHdr c f pos := by
    have hb : ∀ k < itemHdrSize c, f' (pos + k) = f (pos + k) := by
      intro k hk
      exact h (pos + k) (by omega) (by omega)
    unfold itemHdrSize at hb
    unfold readItemHdr
    have h0 := hb 0 (by omega)
    rw [Nat.add_zero] at h0
    rw [h0, hb 1 (by omega), hb 2 (by omega), hb 3 (by omega)]
    have hval : readBytes f' (pos + 4) 2 = readBytes f (pos + 4) 2 := by
      apply readBytes_congr
      intro k hk
      rw [Nat.add_assoc]
      exact hb (4 + k) (by omega)
    have horg : readBytes f' (pos + 6) (kvSizeBytes c) = readBytes f (pos + 6) (kvSizeBytes c) := by
      apply readBytes_congr
      intro k hk
      rw [Nat.add_assoc]
      exact hb (6 + k) (by omega)
    rw [hval, horg]
  unfold kvHead
  rw [hhdr]

end Head

/-! ## The run of the loop -/

section Run

variable (c : KvConf) (func : ItemFunc) (i : ℕ)

/-- The run of the loop from `pos` on: the calls of the callback, each with the state it is made
in, and what is returned. -/
inductive Scan : ℕ → KvMgr → List (KvMgr × KvItem) → Option KvItem × KvMgr → Prop
  | out {pos : ℕ} {s : KvMgr} : ¬ HdrFits c i pos → Scan pos s [] (none, kvTraverseEnd c s i pos)
  | erased {pos : ℕ} {s : KvMgr} : HdrFits c i pos → kvHead c s.flash pos = .erased →
      Scan pos s [] (none, kvTraverseEnd c s i pos)
  | garbage {pos : ℕ} {s : KvMgr} {calls : List (KvMgr × KvItem)} {r : Option KvItem × KvMgr} :
      HdrFits c i pos → kvHead c s.flash pos = .garbage →
      Scan (pos + itemHdrSize c) (kvMarkDirty c s i) calls r → Scan pos s calls r
  | dead {pos len : ℕ} {s : KvMgr} {calls : List (KvMgr × KvItem)} {r : Option KvItem × KvMgr} :
      HdrFits c i pos → kvHead c s.flash pos = .dead len →
      Scan (pos + len) (kvMarkDirty c s i) calls r → Scan pos s calls r
  | stopped {pos len : ℕ} {s s' : KvMgr} {item item' : KvItem} {res : KvRes} :
      HdrFits c i pos → kvHead c s.flash pos = .item item len → func s item = (res, item', s') →
      res ≠ .cont → Scan pos s [(s, item)] (if res = .ok then some item' else none, s')
  | cont {pos len : ℕ} {s s' : KvMgr} {item item' : KvItem} {calls : List (KvMgr × KvItem)}
      {r : Option KvItem × KvMgr} :
      HdrFits c i pos → kvHead c s.flash pos = .item item len → func s item = (.cont, item', s') →
      Scan (pos + len) s' calls r → Scan pos s ((s, item) :: calls) r

/-- One round of the loop that is followed by another test. -/
inductive Round : ℕ × KvMgr → ℕ × KvMgr → Prop
  | garbage {pos : ℕ} {s : KvMgr} : HdrFits c i pos → kvHead c s.flash pos = .garbage →
      Round (pos, s) (pos + itemHdrSize c, kvMarkDirty c s i)
  | dead {pos len : ℕ} {s : KvMgr} : HdrFits c i pos → kvHead c s.flash pos = .dead len →
      Round (pos, s) (pos + len, kvMarkDirty c s i)
  | cont {pos len : ℕ} {s s' : KvMgr} {item item' : KvItem} :
      HdrFits c i pos → kvHead c s.flash pos = .item item len → func s item = (.cont, item', s') →
      Round (pos, s) (pos + len, s')

/-- The loop comes from the first state to the second. -/
def Reaches : ℕ × KvMgr → ℕ × KvMgr → Prop := Relation.ReflTransGen (Round c func i)

/-- The test and what follows. SRCLINE: kvmgr.c:527-541 -/
def kvTraverseNext (fuel pos : ℕ) (s : KvMgr) : Option KvItem × KvMgr :=
  if HdrFits c i pos then kvTraverseLoop c func i fuel pos s else (none, kvTraverseEnd c s i pos)

/-- The round of the loop, by the header. -/
theorem kvTraverseLoop_succ (fuel pos : ℕ) (s : KvMgr) : kvTraverseLoop c func i (fuel + 1) pos s =
    match kvHead c s.flash pos with
    | .erased => (none, kvTraverseEnd c s i pos)
    | .garbage => kvTraverseNext c func i fuel (pos + itemHdrSize c) (kvMarkDirty c s i)
    | .dead len => kvTraverseNext c func i fuel (pos + len) (kvMarkDirty c s i)
    | .item item len =>
      match func s item with
      | (.ok, item, s) => (some item, s)
      | (.cont, _, s) => kvTraverseNext c func i fuel (pos + len) s
      | (_, _, s) => (none, s) := by
  unfold kvTraverseLoop kvHead kvTraverseNext HdrFits blkStop
  dsimp only
  generalize (if (readItemHdr c s.flash pos).magic ≠ itemMagicNum then 0xFFFF
    else (readItemHdr c s.flash pos).valLen) = valLen
  split
  case isTrue => rfl
  case isFalse =>
    split
    case isTrue => rfl
    case isFalse =>
      split
      case isTrue => rfl
      case isFalse => rfl

/-- Every round moves on by a byte at least, so the fuel lasts. -/
theorem scan_kvTraverseNext (fuel : ℕ) : ∀ (pos : ℕ) (s : KvMgr), blkStop c i ≤ pos + fuel →
    ∃ calls, Scan c func i pos s calls (kvTraverseNext c func i fuel pos s) := by
  have hh : 0 < itemHdrSize c := by
    obtain h | h := itemHdrSize_cases c <;> omega
  induction fuel with
  | zero =>
    intro pos s hfuel
    have hout : ¬ HdrFits c i pos := by
      unfold HdrFits
      omega
    rw [kvTraverseNext, if_neg hout]
    exact ⟨[], .out hout⟩
  | succ fuel ih =>
    intro pos s hfuel
    rw [kvTraverseNext]
    split
    case isFalse hout => exact ⟨[], .out hout⟩
    case isTrue hin =>
      rw [kvTraverseLoop_succ]
      cases hhead : kvHead c s.flash pos with
      | erased => exact ⟨[], .erased hin hhead⟩
      | garbage =>
        obtain ⟨calls, h⟩ := ih (pos + itemHdrSize c) (kvMarkDirty c s i) (by omega)
        exact ⟨calls, .garbage hin hhead h⟩
      | dead len =>
        have hlen := (kvHead_dead hhead).1
        obtain ⟨calls, h⟩ := ih (pos + len) (kvMarkDirty c s i) (by omega)
        exact ⟨calls, .dead hin hhead h⟩
      | item item len =>
        have hlen : 0 < len := by
          obtain ⟨-, -, -, rfl, -⟩ := kvHead_item hhead
          exact lt_of_lt_of_le (by omega) (kvAlign_spec _).1
        cases hcall : func s item with | mk res rest =>
        obtain ⟨item', s'⟩ := rest
        simp only [hcall]
        by_cases hres : res = .cont
        · subst hres
          obtain ⟨calls, h⟩ := ih (pos + len) s' (by omega)
          exact ⟨_, .cont hin hhead hcall h⟩
        · have h := Scan.stopped hin hhead hcall hres
          cases res with
          | cont => exact absurd rfl hres
          | ok => exact ⟨_, h⟩
          | noSpace => exact ⟨_, h⟩
          | invalidParam => exact ⟨_, h⟩
          | itemNotFound => exact ⟨_, h⟩

/-- **The loop ends**, whatever the block holds and whatever the callback does. -/
theorem scan_kvItemTraverse (s : KvMgr) :
    ∃ calls, Scan c func i (blkFirst c i) s calls (kvItemTraverse c func s i) := by
  have h := scan_kvTraverseNext c func i c.blkSize (blkFirst c i) s
    (by unfold blkStop blkFirst; omega)
  rw [kvTraverseNext, if_pos (hdrFits_first c i)] at h
  exact h

end Run

section Calls

variable {c : KvConf} {func : ItemFunc} {i pos pos' : ℕ} {s s' t : KvMgr} {item : KvItem}
  {calls : List (KvMgr × KvItem)} {r : Option KvItem × KvMgr} {x y : ℕ × KvMgr}

/-- A round of the walk starts at a header that fits. -/
theorem Round.hdrFits (h : Round c func i (pos, s) x) : HdrFits c i pos := by
  cases h with
  | garbage hin => exact hin
  | dead hin => exact hin
  | cont hin => exact hin

/-- The loop is deterministic. -/
theorem Round.unique (hx : Round c func i (pos, s) x) (hy : Round c func i (pos, s) y) : x = y := by
  cases hx with
  | garbage hin hx =>
    cases hy with
    | garbage _ hy => rfl
    | dead _ hy => exact KvHead.noConfusion (hx.symm.trans hy)
    | cont _ hy => exact KvHead.noConfusion (hx.symm.trans hy)
  | dead hin hx =>
    cases hy with
    | garbage _ hy => exact KvHead.noConfusion (hx.symm.trans hy)
    | dead _ hy =>
      cases hx.symm.trans hy
      rfl
    | cont _ hy => exact KvHead.noConfusion (hx.symm.trans hy)
  | cont hin hx hfx =>
    cases hy with
    | garbage _ hy => exact KvHead.noConfusion (hx.symm.trans hy)
    | dead _ hy => exact KvHead.noConfusion (hx.symm.trans hy)
    | cont _ hy hfy =>
      cases hx.symm.trans hy
      cases hfx.symm.trans hfy
      rfl

/-- The loop reads the header of `item` in state `t`. -/
def Passes (c : KvConf) (func : ItemFunc) (i : ℕ) (x : ℕ × KvMgr) (t : KvMgr) (item : KvItem) :
    Prop :=
  ∃ pos len, Reaches c func i x (pos, t) ∧ HdrFits c i pos ∧ kvHead c t.flash pos = .item item len

/-- It does so in this round or in a later one. -/
theorem passes_round (h : Round c func i (pos, s) x) : Passes c func i (pos, s) t item ↔
    (t = s ∧ ∃ len, kvHead c s.flash pos = .item item len) ∨ Passes c func i x t item := by
  constructor
  · rintro ⟨pos', len, hreach, hin, hhead⟩
    rcases hreach.cases_head with heq | ⟨y, hy, hrest⟩
    · cases heq
      exact .inl ⟨rfl, len, hhead⟩
    · rw [h.unique hy]
      exact .inr ⟨pos', len, hrest, hin, hhead⟩
  · rintro (⟨rfl, len, hhead⟩ | ⟨pos', len, hrest, hin, hhead⟩)
    · exact ⟨pos, len, .refl, h.hdrFits, hhead⟩
    · exact ⟨pos', len, .head h hrest, hin, hhead⟩

/-- No round follows. -/
theorem passes_last (h : ∀ x, ¬ Round c func i (pos, s) x) : Passes c func i (pos, s) t item ↔
    t = s ∧ HdrFits c i pos ∧ ∃ len, kvHead c s.flash pos = .item item len := by
  constructor
  · rintro ⟨pos', len, hreach, hin, hhead⟩
    rcases hreach.cases_head with heq | ⟨y, hy, -⟩
    · cases heq
      exact ⟨rfl, hin, len, hhead⟩
    · exact absurd hy (h y)
  · rintro ⟨rfl, hin, len, hhead⟩
    exact ⟨pos, len, .refl, hin, hhead⟩

/-- The callback is called for the items whose headers are read. -/
theorem Scan.mem_calls (h : Scan c func i pos s calls r) :
    (t, item) ∈ calls ↔ Passes c func i (pos, s) t item := by
  induction h with
  | out hout =>
    rw [passes_last fun x hx => hout hx.hdrFits]
    simp [hout]
  | erased hin hhead =>
    rw [passes_last]
    · simp [hhead]
    · rintro x (⟨-, hx⟩ | ⟨-, hx⟩ | ⟨-, hx, -⟩) <;> exact KvHead.noConfusion (hhead.symm.trans hx)
  | garbage hin hhead _ ih =>
    rw [ih, passes_round (.garbage hin hhead)]
    simp [hhead]
  | dead hin hhead _ ih =>
    rw [ih, passes_round (.dead hin hhead)]
    simp [hhead]
  | @stopped pos len s s' it it' res hin hhead hcall hres =>
    rw [passes_last]
    · simp [hhead, hin, eq_comm]
    · rintro x (⟨-, hx⟩ | ⟨-, hx⟩ | ⟨-, hx, hfx⟩)
      · exact KvHead.noConfusion (hhead.symm.trans hx)
      · exact KvHead.noConfusion (hhead.symm.trans hx)
      · cases hhead.symm.trans hx
        rw [hcall] at hfx
        exact hres (congrArg Prod.fst hfx)
  | cont hin hhead hcall _ ih =>
    rw [List.mem_cons, ih, passes_round (.cont hin hhead hcall)]
    simp [hhead, eq_comm]

/-- A callback that always continues brings the loop to its end. -/
theorem Scan.reaches_end (h : Scan c func i pos s calls r)
    (hcont : ∀ s item, (func s item).1 = .cont) :
    ∃ pos' t, Reaches c func i (pos, s) (pos', t) ∧ r = (none, kvTraverseEnd c t i pos') := by
  induction h with
  | out _ => exact ⟨_, _, .refl, rfl⟩
  | erased _ _ => exact ⟨_, _, .refl, rfl⟩
  | garbage hin hhead _ ih =>
    obtain ⟨pos', t, hreach, hr⟩ := ih
    exact ⟨pos', t, .head (.garbage hin hhead) hreach, hr⟩
  | dead hin hhead _ ih =>
    obtain ⟨pos', t, hreach, hr⟩ := ih
    exact ⟨pos', t, .head (.dead hin hhead) hreach, hr⟩
  | @stopped pos len s s' item item' res hin hhead hcall hres =>
    refine absurd ?_ hres
    rw [← hcont s item, hcall]
  | cont hin hhead hcall _ ih =>
    obtain ⟨pos', t, hreach, hr⟩ := ih
    exact ⟨pos', t, .head (.cont hin hhead hcall) hreach, hr⟩

end Calls

/-! ## The headers of a block -/

/-- How far it is to the next header. -/
def KvHead.stride (c : KvConf) : KvHead → Option ℕ
  | .erased => none
  | .garbage => some (itemHdrSize c)
  | .dead len => some len
  | .item _ len => some len

/-- The places where a scan that leaves the block as it is reads a header. -/
inductive Hdrs (c : KvConf) (f : Mem) (i : ℕ) : ℕ → Prop
  | first : Hdrs c f i (blkFirst c i)
  | next {pos len : ℕ} : Hdrs c f i pos → HdrFits c i pos → (kvHead c f pos).stride c = some len →
      Hdrs c f i (pos + len)

/-- The item lies in block `i`. -/
def ItemIn (c : KvConf) (i : ℕ) (item : KvItem) : Prop :=
  item.pos + itemHdrSize c + item.hdr.keyLen + item.hdr.valLen ≤ blkStop c i

/-- No header of the block claims more bytes than the block has. -/
def BlkFits (c : KvConf) (f : Mem) (i : ℕ) : Prop :=
  ∀ pos, Hdrs c f i pos → HdrFits c i pos → ∀ item len, kvHead c f pos = .item item len →
    ItemIn c i item

section Content

variable {c : KvConf} {func : ItemFunc} {i pos : ℕ} {s t : KvMgr}

/-- A block header lies before the first item. -/
theorem kvMarkDirty_flash {a : ℕ} (h : blkFirst c i ≤ a) :
    (kvMarkDirty c s i).flash a = s.flash a := by
  unfold kvMarkDirty
  split
  case isTrue =>
    apply writeBytes_outside
    unfold blkFirst blkHdrSize at h
    simp only [List.length_singleton]
    omega
  case isFalse => rfl

/-- The headers of the chain come behind the one of the block. -/
theorem Hdrs.first_le {f : Mem} (h : Hdrs c f i pos) : blkFirst c i ≤ pos := by
  induction h with
  | first => exact le_refl _
  | next _ _ _ ih => omega

/-- The rest of the block from `pos` on is as it was in `f`. -/
def RestIs (c : KvConf) (f : Mem) (i pos : ℕ) (t : KvMgr) : Prop :=
  ∀ a, pos ≤ a → a < blkStop c i → t.flash a = f a

/-- A header that is not overwritten is read as before. -/
theorem RestIs.head {f : Mem} (h : RestIs c f i pos t) (hin : HdrFits c i pos) :
    kvHead c t.flash pos = kvHead c f pos :=
  kvHead_congr fun a ha hb => h a ha (lt_trans hb hin)

/-- A callback that leaves the rest of the block as it is, along with an invariant `J`, reaches
the headers that the block had. -/
theorem reaches_hdrs {J : ℕ → KvMgr → Prop} (hJ : J (blkFirst c i) s)
    (hgarbage : ∀ pos t, J pos t → J (pos + itemHdrSize c) (kvMarkDirty c t i))
    (hdead : ∀ pos t len, J pos t → 4 ∣ len → J (pos + len) (kvMarkDirty c t i))
    (hitem : ∀ pos t len item item' t', Hdrs c s.flash i pos → HdrFits c i pos → J pos t →
      kvHead c s.flash pos = .item item len → func t item = (.cont, item', t') →
      J (pos + len) t' ∧ ∀ a, pos + len ≤ a → a < blkStop c i → t'.flash a = t.flash a)
    {x : ℕ × KvMgr} (h : Reaches c func i (blkFirst c i, s) x) :
    Hdrs c s.flash i x.1 ∧ J x.1 x.2 ∧ RestIs c s.flash i x.1 x.2 := by
  induction h with
  | refl => exact ⟨.first, hJ, fun _ _ _ => rfl⟩
  | @tail x y _ hround ih =>
    obtain ⟨hhdrs, hj, hrest⟩ := ih
    have hfirst := hhdrs.first_le
    cases hround with
    | garbage hin hhead =>
      rw [hrest.head hin] at hhead
      refine ⟨.next hhdrs hin (by rw [hhead]; rfl), hgarbage _ _ hj, ?_⟩
      intro a ha hb
      rw [kvMarkDirty_flash (by omega)]
      exact hrest a (by omega) hb
    | dead hin hhead =>
      rw [hrest.head hin] at hhead
      refine ⟨.next hhdrs hin (by rw [hhead]; rfl), hdead _ _ _ hj (kvHead_dead hhead).2, ?_⟩
      intro a ha hb
      rw [kvMarkDirty_flash (by omega)]
      exact hrest a (by omega) hb
    | cont hin hhead hcall =>
      rw [hrest.head hin] at hhead
      obtain ⟨hj', hsame⟩ := hitem _ _ _ _ _ _ hhdrs hin hj hhead hcall
      refine ⟨.next hhdrs hin (by rw [hhead]; rfl), hj', ?_⟩
      intro a ha hb
      rw [hsame a ha hb]
      exact hrest a (by omega) hb

/-- The callback leaves everything behind the state byte of its item as it is. -/
def Keeps (func : ItemFunc) : Prop :=
  ∀ s item a, item.pos + 2 ≤ a → (func s item).2.2.flash a = s.flash a

/-- The reach of such a callback. -/
theorem Keeps.reaches_hdrs (hk : Keeps func) {x : ℕ × KvMgr}
    (h : Reaches c func i (blkFirst c i, s) x) :
    Hdrs c s.flash i x.1 ∧ RestIs c s.flash i x.1 x.2 := by
  have hr := @Kv.reaches_hdrs c func i s (fun _ _ => True) trivial (fun _ _ _ => trivial)
    (fun _ _ _ _ _ => trivial) ?_ x h
  · exact ⟨hr.1, hr.2.2⟩
  · intro pos t len item item' t' _ _ _ hhead hcall
    refine ⟨trivial, ?_⟩
    intro a ha _
    have hsame := hk t item a
    rw [hcall] at hsame
    apply hsame
    obtain ⟨hpos, -, -, hlen, hkey, -⟩ := kvHead_item hhead
    have hge := (kvAlign_spec (itemHdrSize c + item.hdr.keyLen + item.hdr.valLen)).1
    obtain h8 | h8 := itemHdrSize_cases c <;> omega

/-- A callback that keeps the block and always continues reaches all of its headers. -/
theorem Keeps.hdrs_reached (hk : Keeps func) (hcont : ∀ s item, (func s item).1 = .cont)
    (h : Hdrs c s.flash i pos) : ∃ t, Reaches c func i (blkFirst c i, s) (pos, t) := by
  induction h with
  | first => exact ⟨s, .refl⟩
  | @next pos len hhdrs hin hstride ih =>
    obtain ⟨t, hreach⟩ := ih
    have hhead := (hk.reaches_hdrs hreach).2.head hin
    cases hf : kvHead c s.flash pos with
    | erased =>
      rw [hf] at hstride
      cases hstride
    | garbage =>
      rw [hf] at hstride hhead
      cases hstride
      exact ⟨_, hreach.tail (.garbage hin hhead)⟩
    | dead len =>
      rw [hf] at hstride hhead
      cases hstride
      exact ⟨_, hreach.tail (.dead hin hhead)⟩
    | item item len =>
      rw [hf] at hstride hhead
      cases hstride
      have hres := hcont t item
      cases hcall : func t item with | mk res rest =>
      obtain ⟨item', t'⟩ := rest
      rw [hcall] at hres
      cases hres
      exact ⟨t', hreach.tail (.cont hin hhead hcall)⟩

end Content

/-! ## The callbacks -/

/-- The callbacks of the traversal; a collection copies into the block `gcIdx`. -/
inductive KvCallback
  | recovery
  | find (key : List UInt8)
  | gc (gcIdx : ℕ)
  | delByPrefix (keyPrefix : List UInt8)
  | delAll (exPrefix : Option (List UInt8))

namespace KvCallback

def func (c : KvConf) : KvCallback → ItemFunc
  | .recovery => itemRecoveryCb c
  | .find key => itemFindCb c key
  | .gc _ => itemGcCb c
  | .delByPrefix keyPrefix => itemDelByPrefixCb c keyPrefix
  | .delAll exPrefix => itemDelAllCb c exPrefix

/-- The state the traversal starts in. SRCLINE: kvmgr.c:807-814 -/
def entry (c : KvConf) (s : KvMgr) : KvCallback → KvMgr
  | .gc gcIdx => { s with writePos := blkFirst c gcIdx }
  | _ => s

/-- A block is not collected into itself. -/
def Apart (i : ℕ) : KvCallback → Prop
  | .gc gcIdx => gcIdx ≠ i
  | _ => True

/-- What a collection copies fits into its block. -/
def Fits (c : KvConf) (s : KvMgr) : KvCallback → Prop
  | .gc gcIdx => s.writePos ≤ blkStop c gcIdx
  | _ => True

end KvCallback

section Callbacks

variable {c : KvConf} {i : ℕ} {s : KvMgr}

/-- A deletion writes the state of the item and the state of its block. -/
theorem kvItemKill_flash {off a : ℕ} (h : off + 2 ≤ a) :
    (kvItemKill c s off).flash a = s.flash a := by
  have hblk : off / c.blkSize * c.blkSize ≤ off := Nat.div_mul_le_self off c.blkSize
  have hwrite : ∀ (f : Mem) (b : UInt8), writeBytes f (off + 1) [b] a = f a := fun f b =>
    writeBytes_outside f _ a _ (.inr (by simp only [List.length_singleton]; omega))
  unfold kvItemKill
  dsimp only
  split
  case isTrue =>
    calc writeBytes (writeBytes s.flash (off + 1) [itemStateDelete])
            (off / c.blkSize * c.blkSize + 1) [blkStateDirty] a
        = writeBytes s.flash (off + 1) [itemStateDelete] a :=
          writeBytes_outside _ _ a _ (.inr (by simp only [List.length_singleton]; omega))
      _ = s.flash a := hwrite _ _
  case isFalse => exact hwrite _ _

/-- The callback of a search leaves the flash. -/
theorem keeps_find (key : List UInt8) : Keeps (itemFindCb c key) := by
  intro s item a _
  unfold itemFindCb
  dsimp only
  split_ifs <;> rfl

/-- The callback that deletes by prefix writes states only. -/
theorem keeps_delByPrefix (keyPrefix : List UInt8) : Keeps (itemDelByPrefixCb c keyPrefix) := by
  intro s item a ha
  unfold itemDelByPrefixCb
  dsimp only
  split_ifs
  · rfl
  · exact kvItemKill_flash ha
  · rfl

/-- So does the callback that deletes all items. -/
theorem keeps_delAll (exPrefix : Option (List UInt8)) : Keeps (itemDelAllCb c exPrefix) := by
  intro s item a ha
  unfold itemDelAllCb
  dsimp only
  split_ifs
  · cases exPrefix with
    | none => exact kvItemKill_flash ha
    | some exPrefix =>
      dsimp only
      split_ifs
      · exact kvItemKill_flash ha
      · exact kvItemKill_flash ha
      · rfl
  · rfl

/-- The callback that deletes all items never stops. -/
theorem itemDelAllCb_cont (exPrefix : Option (List UInt8)) (s : KvMgr) (item : KvItem) :
    (itemDelAllCb c exPrefix s item).1 = .cont := by
  unfold itemDelAllCb
  dsimp only
  split_ifs
  · cases exPrefix with
    | none => rfl
    | some exPrefix =>
      dsimp only
      split_ifs <;> rfl
  · rfl

/-- What the copying keeps when the traversal is at `pos`: no more is written than was read. Items
take a multiple of four bytes, so only a header that was skipped moves `pos` off the alignment. -/
structure GcCopied (c : KvConf) (i gcIdx pos : ℕ) (t : KvMgr) : Prop where
  low : blkFirst c gcIdx ≤ t.writePos
  high : t.writePos ≤ blkStop c gcIdx
  read : t.writePos + blkFirst c i ≤ pos + blkFirst c gcIdx
  slack : 4 ∣ pos ∨ t.writePos + blkFirst c i + 8 ≤ pos + blkFirst c gcIdx

/-- Marking a block as dirty leaves the write position. -/
theorem kvMarkDirty_writePos (t : KvMgr) : (kvMarkDirty c t i).writePos = t.writePos := by
  unfold kvMarkDirty
  split <;> rfl

/-- The first item of a block is aligned. -/
theorem blkFirst_dvd (c : KvConf) (i : ℕ) : 4 ∣ blkFirst c i :=
  ((blkSize_dvd c).mul_left i).add (dvd_refl 4)

/-- So is the end of the block. -/
theorem blkStop_dvd (c : KvConf) (i : ℕ) : 4 ∣ blkStop c i :=
  ((blkSize_dvd c).mul_left i).add (blkSize_dvd c)

/-- The length of a block without its header. -/
theorem blkStop_eq (c : KvConf) (i : ℕ) : blkStop c i + blkHdrSize = blkFirst c i + c.blkSize := by
  unfold blkStop blkFirst
  omega

/-- Two blocks lie apart. -/
theorem blkStop_le {j : ℕ} (h : i ≠ j) :
    blkStop c i ≤ j * c.blkSize ∨ blkStop c j ≤ i * c.blkSize := by
  have hmul : ∀ a b : ℕ, a < b → blkStop c a ≤ b * c.blkSize := by
    intro a b hab
    calc a * c.blkSize + c.blkSize = (a + 1) * c.blkSize := by ring
      _ ≤ b * c.blkSize := Nat.mul_le_mul_right _ hab
  rcases Nat.lt_or_gt_of_ne h with h | h
  · exact .inl (hmul i j h)
  · exact .inr (hmul j i h)

/-- One item is copied. -/
theorem itemGcCb_copied {gcIdx pos len : ℕ} {t : KvMgr} {item : KvItem} (hne : gcIdx ≠ i)
    (h : GcCopied c i gcIdx pos t) (hin : ItemIn c i item)
    (hhead : kvHead c s.flash pos = .item item len) :
    (itemGcCb c t item).1 = .cont ∧ GcCopied c i gcIdx (pos + len) (itemGcCb c t item).2.2 ∧
      ∀ a, blkFirst c i ≤ a → a < blkStop c i →
        (itemGcCb c t item).2.2.flash a = t.flash a := by
  obtain ⟨hpos, -, hilen, hlen, -⟩ := kvHead_item hhead
  have hlen' : kvAlign (itemHdrSize c + item.len) = len := by
    rw [hilen, hlen, Nat.add_assoc]
  obtain ⟨hge, hlt, hdvd⟩ := kvAlign_spec (itemHdrSize c + item.hdr.keyLen + item.hdr.valLen)
  rw [← hlen] at hge hlt hdvd
  have hwrite : (itemGcCb c t item).2.2.writePos = t.writePos + len := by
    rw [← hlen']
    rfl
  have hhigh : t.writePos + len ≤ blkStop c gcIdx := by
    have h₁ := blkStop_eq c i
    have h₂ := blkStop_eq c gcIdx
    have h₃ := blkStop_dvd c i
    have hread := h.read
    unfold ItemIn at hin
    rcases h.slack with h4 | h8 <;> omega
  refine ⟨rfl, ⟨?_, ?_, ?_, ?_⟩, ?_⟩
  · rw [hwrite]
    exact h.low.trans (Nat.le_add_right _ _)
  · rw [hwrite]
    exact hhigh
  · rw [hwrite]
    have := h.read
    omega
  · rw [hwrite]
    rcases h.slack with h4 | h8
    · exact .inl (h4.add hdvd)
    · exact .inr (by omega)
  · intro a ha hb
    have hapart := blkStop_le hne (c := c)
    have hlow := h.low
    unfold blkFirst at ha hlow
    apply writeBytes_outside
    rw [length_readBytes, hlen']
    unfold blkStop at *
    omega

/-- The reach of a collection of a block whose headers fit. -/
theorem reaches_gc {gcIdx : ℕ} (hne : gcIdx ≠ i) (hfits : BlkFits c s.flash i)
    (hs : s.writePos = blkFirst c gcIdx) {x : ℕ × KvMgr}
    (h : Reaches c (itemGcCb c) i (blkFirst c i, s) x) :
    Hdrs c s.flash i x.1 ∧ GcCopied c i gcIdx x.1 x.2 ∧ RestIs c s.flash i x.1 x.2 := by
  have hstop : blkFirst c gcIdx ≤ blkStop c gcIdx := by
    have := blkStop_eq c gcIdx
    have := blkSize_ge c
    unfold blkHdrSize at *
    omega
  have h8 : 8 ≤ itemHdrSize c := by
    obtain h | h := itemHdrSize_cases c <;> omega
  apply reaches_hdrs (J := GcCopied c i gcIdx) _ _ _ _ h
  · exact ⟨hs.ge, hs.le.trans hstop, by omega, .inl (blkFirst_dvd c i)⟩
  · intro pos t ht
    refine ⟨?_, ?_, ?_, .inr ?_⟩ <;> rw [kvMarkDirty_writePos]
    · exact ht.low
    · exact ht.high
    · exact ht.read.trans (by omega)
    · have := ht.read
      omega
  · intro pos t len ht hdvd
    refine ⟨?_, ?_, ?_, ?_⟩ <;> rw [kvMarkDirty_writePos]
    · exact ht.low
    · exact ht.high
    · exact ht.read.trans (by omega)
    · exact ht.slack.imp (fun h4 => h4.add hdvd) (fun h8 => by omega)
  · intro pos t len item item' t' hhdrs hin ht hhead hcall
    obtain ⟨-, hcopied, hsame⟩ := itemGcCb_copied hne ht (hfits pos hhdrs hin item len hhead) hhead
    rw [hcall] at hcopied hsame
    have hle := hhdrs.first_le
    exact ⟨hcopied, fun a ha hb => hsame a (by omega) hb⟩

end Callbacks

/-! ## The recovery -/

/-- **The condition on the recovery.** Where an item of the block has replaced another one, the byte
that is cleared to delete that one is in no length and no origin of a header behind the item. -/
def Undisturbed (c : KvConf) (f : Mem) (i : ℕ) : Prop :=
  ∀ pos p, Hdrs c f i pos → Hdrs c f i p → HdrFits c i pos → HdrFits c i p → pos < p →
    ∀ item len, kvHead c f pos = .item item len →
      f item.hdr.originOff = itemMagicNum → f (item.hdr.originOff + 1) = itemStateNormal →
      ¬ (p + 4 ≤ item.hdr.originOff + 1 ∧ item.hdr.originOff + 1 < p + itemHdrSize c)

/-- What the recovery leaves of the block: bytes are cleared that made an item normal, and
the lengths and origins of the headers from `pos` on are as they were. -/
structure Recovered (c : KvConf) (f : Mem) (i pos : ℕ) (t : KvMgr) : Prop where
  cleared : ∀ a, blkFirst c i ≤ a → a < blkStop c i →
    t.flash a = f a ∨ (t.flash a = itemStateDelete ∧ f a = itemStateNormal)
  fields : ∀ p, pos ≤ p → Hdrs c f i p → HdrFits c i p →
    ∀ a, p + 4 ≤ a → a < p + itemHdrSize c → t.flash a = f a

section Recovery

variable {c : KvConf} {f : Mem} {i pos len off : ℕ} {s t : KvMgr} {item : KvItem}

/-- The item that is read has the place, the lengths and the origin of the one that was
there. -/
def SameItem (item item' : KvItem) : Prop :=
  item'.pos = item.pos ∧ item'.hdr.keyLen = item.hdr.keyLen ∧ item'.hdr.valLen = item.hdr.valLen ∧
    item'.hdr.originOff = item.hdr.originOff

/-- A byte that is not the one of a normal item is as it was. -/
theorem Recovered.byte (h : Recovered c f i pos t) {a : ℕ} (ha : blkFirst c i ≤ a)
    (hb : a < blkStop c i) (hne : f a ≠ itemStateNormal) : t.flash a = f a :=
  (h.cleared a ha hb).resolve_right fun hclear => hne hclear.2

/-- **each header is read as it was**, but that a normal item may be a deleted one. -/
theorem Recovered.head (h : Recovered c f i pos t) (hhdrs : Hdrs c f i pos) (hin : HdrFits c i pos) :
    kvHead c t.flash pos = kvHead c f pos ∨ ∃ item len, kvHead c f pos = .item item len ∧
      (kvHead c t.flash pos = .dead len ∨
        ∃ item', kvHead c t.flash pos = .item item' len ∧ SameItem item item') := by
  have hfirst := hhdrs.first_le
  have hstop : pos + itemHdrSize c < blkStop c i := hin
  have h8 : 8 ≤ itemHdrSize c := by
    obtain h | h := itemHdrSize_cases c <;> omega
  have hval : readBytes t.flash (pos + 4) 2 = readBytes f (pos + 4) 2 :=
    readBytes_congr fun k hk => h.fields pos le_rfl hhdrs hin _ (by omega) (by omega)
  have horg : readBytes t.flash (pos + 6) (kvSizeBytes c) = readBytes f (pos + 6) (kvSizeBytes c) :=
    readBytes_congr fun k hk => h.fields pos le_rfl hhdrs hin _ (by omega)
      (by unfold itemHdrSize; omega)
  have hkey := h.cleared (pos + 3) (by omega) (by omega)
  have hstate := h.cleared (pos + 1) (by omega) (by omega)
  unfold kvHead readItemHdr
  dsimp only
  rw [hval, horg]
  rcases h.cleared pos hfirst (by omega) with hmagic | ⟨hzero, hmagic⟩
  · by_cases hitem : f pos = itemMagicNum
    · rw [hmagic, hitem]
      simp only [ne_eq, not_true_eq_false, false_and, if_false]
      rcases hkey with hkey | ⟨hzero, hkey⟩
      · rw [hkey]
        rcases hstate with hstate | ⟨hdel, hnormal⟩
        · rw [hstate]
          split
          · exact Or.inl rfl
          · split
            · exact Or.inr ⟨_, _, rfl, Or.inr ⟨_, rfl, rfl, rfl, rfl, rfl⟩⟩
            · exact Or.inl rfl
        · rw [hdel, hnormal, if_neg (show itemStateDelete ≠ itemStateNormal by decide), if_pos rfl]
          split
          · exact Or.inl rfl
          · exact Or.inr ⟨_, _, rfl, Or.inl rfl⟩
      · -- a key of 238 bytes is too long, and one of no byte is none
        refine Or.inl ?_
        rw [hzero, hkey, if_pos (Or.inr (Or.inr (Or.inr (by decide)))),
          if_pos (Or.inr (Or.inl (by decide)))]
    · refine Or.inl ?_
      rw [hmagic]
      simp only [ne_eq, hitem, not_false_eq_true, true_and, if_true]
      rcases hstate with hstate | ⟨hdel, hnormal⟩
      · rw [hstate]
        split
        · rfl
        · rw [if_pos (Or.inl (by decide)), if_pos (Or.inl (by decide))]
      · rw [hdel, hnormal]
        simp only [show itemStateDelete ≠ 0xFF by decide, show itemStateNormal ≠ 0xFF by decide,
          and_false, if_false]
        rw [if_pos (Or.inl (by decide)), if_pos (Or.inl (by decide))]
  · -- a header that begins with the state of a normal item, or with a cleared one, is none
    refine Or.inl ?_
    rw [hzero, hmagic]
    simp only [show itemStateDelete ≠ itemMagicNum by decide,
      show itemStateNormal ≠ itemMagicNum by decide, show itemStateDelete ≠ 0xFF by decide,
      show itemStateNormal ≠ 0xFF by decide, ne_eq, not_false_eq_true, true_and, false_and, if_true,
      if_false]
    rw [if_pos (Or.inl (by decide)), if_pos (Or.inl (by decide))]

/-- What a deletion does to the bytes of a block. -/
theorem kvItemKill_block {a : ℕ} (ha : blkFirst c i ≤ a) (hb : a < blkStop c i) :
    (kvItemKill c s off).flash a = if a = off + 1 then itemStateDelete else s.flash a := by
  have hwrite : writeBytes s.flash (off + 1) [itemStateDelete] a =
      if a = off + 1 then itemStateDelete else s.flash a := by
    split
    · next h =>
        subst h
        rw [writeBytes_inside _ _ _ _ le_rfl (by simp), Nat.sub_self]
        rfl
    · next h =>
        exact writeBytes_outside _ _ a _ (by simp only [List.length_singleton]; omega)
  have hblk : a ≠ off / c.blkSize * c.blkSize + 1 := by
    unfold blkFirst blkHdrSize at ha
    unfold blkStop at hb
    rintro rfl
    rcases Nat.lt_trichotomy i (off / c.blkSize) with h | h | h
    · have := Nat.mul_le_mul_right c.blkSize (Nat.succ_le_of_lt h)
      rw [Nat.succ_mul] at this
      omega
    · rw [← h] at ha
      omega
    · have := Nat.mul_le_mul_right c.blkSize h.le
      omega
  unfold kvItemKill
  dsimp only
  split
  · rw [← hwrite]
    exact writeBytes_outside _ _ a _ (by simp only [List.length_singleton]; omega)
  · exact hwrite

/-- A deletion of a normal item whose state is in no later header. -/
theorem Recovered.kill (h : Recovered c f i pos t) (hnormal : t.flash (off + 1) = itemStateNormal)
    (hapart : ∀ p, pos ≤ p → Hdrs c f i p → HdrFits c i p →
      blkFirst c i ≤ off + 1 → off + 1 < blkStop c i →
      ¬ (p + 4 ≤ off + 1 ∧ off + 1 < p + itemHdrSize c)) :
    Recovered c f i pos (kvItemKill c t off) := by
  constructor
  · intro a ha hb
    rw [kvItemKill_block ha hb]
    split
    · next heq =>
        subst heq
        refine Or.inr ⟨rfl, ?_⟩
        rcases h.cleared (off + 1) ha hb with hsame | ⟨hdel, -⟩
        · rw [← hsame, hnormal]
        · rw [hnormal] at hdel
          exact absurd hdel (by decide)
    · exact h.cleared a ha hb
  · intro p hp hhdrs hin a ha hb
    have hfirst := hhdrs.first_le
    have hstop : p + itemHdrSize c < blkStop c i := hin
    have hfirst' : blkFirst c i ≤ a := by omega
    rw [kvItemKill_block hfirst' (by omega), if_neg ?_]
    · exact h.fields p hp hhdrs hin a ha hb
    · rintro rfl
      exact hapart p hp hhdrs hin hfirst' (by omega) ⟨ha, hb⟩

/-- **one item is recovered.** -/
theorem Recovered.call {item' : KvItem} (h : Recovered c f i pos t) (hquiet : Undisturbed c f i)
    (hhdrs : Hdrs c f i pos) (hin : HdrFits c i pos) (hold : kvHead c f pos = .item item len)
    (hnow : kvHead c t.flash pos = .item item' len) (hsame : SameItem item item') :
    Recovered c f i (pos + len) (itemRecoveryCb c t item').2.2 := by
  have h8 : 8 ≤ itemHdrSize c := by
    obtain h | h := itemHdrSize_cases c <;> omega
  obtain ⟨hpos, -, -, hlen, -⟩ := kvHead_item hnow
  have hge := (kvAlign_spec (itemHdrSize c + item'.hdr.keyLen + item'.hdr.valLen)).1
  have hnext : Recovered c f i (pos + len) t :=
    ⟨h.cleared, fun p hp => h.fields p (by omega)⟩
  unfold itemRecoveryCb
  dsimp only
  split
  · split
    · unfold kvItemDel
      dsimp only
      split
      · next hmatch =>
          unfold kvOriginMatches at hmatch
          obtain ⟨hmagic, hstate, -⟩ := of_decide_eq_true hmatch
          have hmagic : t.flash item'.hdr.originOff = itemMagicNum := hmagic
          have hstate : t.flash (item'.hdr.originOff + 1) = itemStateNormal := hstate
          refine hnext.kill hstate fun p hp hhdrs' hin' ha hb hfield => ?_
          have hfirst := hhdrs'.first_le
          have hback : ∀ a, blkFirst c i ≤ a → a < blkStop c i → t.flash a ≠ itemStateDelete →
              f a = t.flash a := fun a ha hb hne =>
            ((h.cleared a ha hb).resolve_right fun hclear => hne hclear.1).symm
          rw [hsame.2.2.2] at hmagic hstate ha hb hfield
          refine hquiet pos p hhdrs hhdrs' hin hin' (by omega) item len hold ?_ ?_ hfield
          · rw [hback _ (by omega) (by omega) (by rw [hmagic]; decide), hmagic]
          · rw [hback _ ha hb (by rw [hstate]; decide), hstate]
      · exact hnext
    · exact hnext
  · unfold kvItemDel
    dsimp only
    rw [hpos]
    exact hnext.kill (kvHead_item_state hnow) fun p hp _ _ _ _ hfield => by omega

/-- The recovery comes to headers of the block only, and to items that were there. -/
theorem reaches_recovery (hquiet : Undisturbed c s.flash i) {x : ℕ × KvMgr}
    (h : Reaches c (itemRecoveryCb c) i (blkFirst c i, s) x) :
    Hdrs c s.flash i x.1 ∧ Recovered c s.flash i x.1 x.2 := by
  have hdirty {pos : ℕ} {t : KvMgr} (h : Recovered c s.flash i pos t) (len : ℕ) :
      Recovered c s.flash i (pos + len) (kvMarkDirty c t i) := by
    refine ⟨fun a ha hb => ?_, fun p hp hhdrs hin a ha hb => ?_⟩
    · rw [kvMarkDirty_flash ha]
      exact h.cleared a ha hb
    · have hfirst := hhdrs.first_le
      rw [kvMarkDirty_flash (by omega)]
      exact h.fields p (by omega) hhdrs hin a ha hb
  induction h with
  | refl => exact ⟨.first, fun _ _ _ => Or.inl rfl, fun _ _ _ _ _ _ _ => rfl⟩
  | @tail x y _ hround ih =>
    obtain ⟨hhdrs, hrec⟩ := ih
    cases hround with
    | garbage hin hhead =>
      obtain hsame | ⟨item, len, -, hdead | ⟨item', hitem, -⟩⟩ := hrec.head hhdrs hin
      · rw [hsame] at hhead
        exact ⟨.next hhdrs hin (by rw [hhead]; rfl), hdirty hrec _⟩
      · exact KvHead.noConfusion (hhead.symm.trans hdead)
      · exact KvHead.noConfusion (hhead.symm.trans hitem)
    | dead hin hhead =>
      obtain hsame | ⟨item, len, hold, hdead | ⟨item', hitem, -⟩⟩ := hrec.head hhdrs hin
      · rw [hsame] at hhead
        exact ⟨.next hhdrs hin (by rw [hhead]; rfl), hdirty hrec _⟩
      · cases hhead.symm.trans hdead
        exact ⟨.next hhdrs hin (by rw [hold]; rfl), hdirty hrec _⟩
      · exact KvHead.noConfusion (hhead.symm.trans hitem)
    | cont hin hhead hcall =>
      have hstate := congrArg (fun r => r.2.2) hcall
      obtain hsame | ⟨item, len, hold, hdead | ⟨item', hitem, hlike⟩⟩ := hrec.head hhdrs hin
      · have hold := hsame.symm.trans hhead
        refine ⟨.next hhdrs hin (by rw [hold]; rfl), ?_⟩
        rw [← hstate]
        exact hrec.call hquiet hhdrs hin hold hhead ⟨rfl, rfl, rfl, rfl⟩
      · exact KvHead.noConfusion (hhead.symm.trans hdead)
      · cases hhead.symm.trans hitem
        refine ⟨.next hhdrs hin (by rw [hold]; rfl), ?_⟩
        rw [← hstate]
        exact hrec.call hquiet hhdrs hin hold hhead hlike

end Recovery

/-! ## The result -/

/-- Every item that is passed to the callback lies in block `i`, and a collection stays in its
block. -/
def TraverseSafe (c : KvConf) (s : KvMgr) (i : ℕ) (cb : KvCallback) : Prop :=
  ∃ calls, Scan c (cb.func c) i (blkFirst c i) (cb.entry c s) calls
      (kvItemTraverse c (cb.func c) (cb.entry c s) i) ∧
    (∀ call ∈ calls, ItemIn c i call.2) ∧
    cb.Fits c (kvItemTraverse c (cb.func c) (cb.entry c s) i).2

section Result

variable {c : KvConf} {s : KvMgr} {i : ℕ}

/-- The calls are made at the headers that are reached. -/
theorem traverseSafe_iff (cb : KvCallback) : TraverseSafe c s i cb ↔
    (∀ pos t, Reaches c (cb.func c) i (blkFirst c i, cb.entry c s) (pos, t) → HdrFits c i pos →
      ∀ item len, kvHead c t.flash pos = .item item len → ItemIn c i item) ∧
    cb.Fits c (kvItemTraverse c (cb.func c) (cb.entry c s) i).2 := by
  constructor
  · rintro ⟨calls, hscan, hin, hfits⟩
    refine ⟨?_, hfits⟩
    intro pos t hreach hhdr item len hhead
    exact hin (t, item) (hscan.mem_calls.2 ⟨pos, len, hreach, hhdr, hhead⟩)
  · rintro ⟨hreach, hfits⟩
    obtain ⟨calls, hscan⟩ := scan_kvItemTraverse c (cb.func c) i (cb.entry c s)
    refine ⟨calls, hscan, ?_, hfits⟩
    rintro ⟨t, item⟩ hmem
    obtain ⟨pos, len, hr, hhdr, hhead⟩ := hscan.mem_calls.1 hmem
    exact hreach pos t hr hhdr item len hhead

/-- A callback that keeps the block. -/
theorem traverseSafe_of_keeps {cb : KvCallback} (hk : Keeps (cb.func c)) (hentry : cb.entry c s = s)
    (hany : ∀ t, cb.Fits c t) (hfits : BlkFits c s.flash i) : TraverseSafe c s i cb := by
  refine (traverseSafe_iff cb).2 ⟨?_, hany _⟩
  rw [hentry]
  intro pos t hreach hin item len hhead
  obtain ⟨hhdrs, hrest⟩ := hk.reaches_hdrs hreach
  rw [hrest.head hin] at hhead
  exact hfits pos hhdrs hin item len hhead

/-- The collection. -/
theorem traverseSafe_gc {gcIdx : ℕ} (hne : gcIdx ≠ i) (hfits : BlkFits c s.flash i) :
    TraverseSafe c s i (.gc gcIdx) := by
  have hreach := fun x => @reaches_gc c i (KvCallback.entry c s (.gc gcIdx)) gcIdx hne hfits rfl x
  refine (traverseSafe_iff _).2 ⟨?_, ?_⟩
  · intro pos t h hin item len hhead
    obtain ⟨hhdrs, -, hrest⟩ := hreach _ h
    rw [hrest.head hin] at hhead
    exact hfits pos hhdrs hin item len hhead
  · obtain ⟨calls, hscan⟩ := scan_kvItemTraverse c (itemGcCb c) i
      (KvCallback.entry c s (.gc gcIdx))
    obtain ⟨pos, t, h, hr⟩ := hscan.reaches_end fun _ _ => rfl
    have hend : (kvItemTraverse c (itemGcCb c) (KvCallback.entry c s (.gc gcIdx)) i).2.writePos =
        t.writePos := by
      rw [hr]
      rfl
    exact hend.le.trans (hreach _ h).2.1.high

/-- The recovery. -/
theorem traverseSafe_recovery (hquiet : Undisturbed c s.flash i) (hfits : BlkFits c s.flash i) :
    TraverseSafe c s i .recovery := by
  refine (traverseSafe_iff _).2 ⟨?_, trivial⟩
  intro pos t hreach hin item len hhead
  have hrec : Hdrs c s.flash i pos ∧ Recovered c s.flash i pos t := reaches_recovery hquiet hreach
  obtain ⟨hhdrs, hrec⟩ := hrec
  obtain hsame | ⟨old, len', hold, hdead | ⟨item', hitem, hlike⟩⟩ := hrec.head hhdrs hin
  · rw [hsame] at hhead
    exact hfits pos hhdrs hin item len hhead
  · exact KvHead.noConfusion (hhead.symm.trans hdead)
  · cases hhead.symm.trans hitem
    have hfit := hfits pos hhdrs hin old len hold
    unfold ItemIn at hfit ⊢
    rw [hlike.1, hlike.2.1, hlike.2.2.1]
    exact hfit

/-- Two blocks of 4 KB. -/
def smallConf : KvConf where
  blkBits := 12
  blkNums := 2
  sector := by decide
  total := by decide

/-- Headers of items with 128 bytes of key and 512 bytes of value, one behind the other, the
last one of a normal item. -/
def overrunFlash : Mem := fun a =>
  match (a - 4) % 648 with
  | 0 => 0x49
  | 1 => if a < 3893 then 0x00 else 0xEE
  | 3 => 128
  | 4 => 0x00
  | 5 => 0x02
  | _ => 0x41

def overrunState : KvMgr where
  flash := overrunFlash
  trace := []
  gcTrigger := false
  gcWaiter := 0
  cleanBlkNums := 1
  writePos := 4096 + 4
  blockInfo := fun _ => { space := 4092, state := blkStateDirty }

/-- An item and the one that replaces it, whose origin is the first one. -/
def replacedFlash : Mem := fun a =>
  ([0x4B, 0x44, 0, 0, 0x49, 0xEE, 0, 1, 1, 0, 0, 0, 0x41, 0x42, 0, 0,
    0x49, 0xEE, calcCrc8 [0x41, 0x43], 1, 1, 0, 4, 0, 0x41, 0x43, 0, 0] : List UInt8).getD a 0xFF

/-- Its headers. -/
theorem hdrs_replaced {pos : ℕ} (h : Hdrs smallConf replacedFlash 0 pos) :
    pos = 4 ∨ pos = 16 ∨ pos = 28 := by
  induction h with
  | first => exact Or.inl rfl
  | next _ _ hstride ih =>
    rcases ih with rfl | rfl | rfl
    · cases (show (kvHead smallConf replacedFlash 4).stride smallConf = some 12 from rfl).symm.trans
        hstride
      exact Or.inr (Or.inl rfl)
    · cases (show (kvHead smallConf replacedFlash 16).stride smallConf = some 12 from rfl).symm.trans
        hstride
      exact Or.inr (Or.inr rfl)
    · cases hstride

def replacedState : KvMgr := { overrunState with flash := replacedFlash }

end Result

end GenieSdk.Analysis.Kv
