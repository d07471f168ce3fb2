import GenieSdk.Analysis.KvMap
import GenieSdk.Analysis.KvStore

/-!
# The entries of the store

An entry is a normal item with its key and value, at a place in one of the rows (`LiveAt`). The writes of the
store change the entries in few ways (`Content`): one is added behind the last item of a block, one is
deleted, or those of a block that is formatted are gone. The store `Holds` a map if the keys of its entries are
distinct and the entries are those of the map.
-/

set_option autoImplicit false

namespace GenieSdk.Analysis.Kv

open GenieSdk.Lib
open GenieSdk.Model

/-- A normal item with this key and this value stands at `pos`. -/
structure EntryAt (c : KvConf) (f : Mem) (pos : ℕ) (key val : List UInt8) : Prop where
  normal : f (pos + 1) = itemStateNormal
  crc : f (pos + 2) = calcCrc8 (key ++ val)
  keyLen : (readItemHdr c f pos).keyLen = key.length
  valLen : (readItemHdr c f pos).valLen = val.length
  keyBytes : Stands f (pos + itemHdrSize c) key
  valBytes : Stands f (pos + itemHdrSize c + key.length) val

/-- It is one of the items of a block. -/
def LiveAt (c : KvConf) (ns : ℕ → List ℕ) (f : Mem) (pos : ℕ) (key val : List UInt8) : Prop :=
  ∃ i < c.blkNums, ∃ n, PlaceOf c ns i pos n ∧ EntryAt c f pos key val

/-- Entries, by place, key and value. -/
abbrev Entries := ℕ → List UInt8 → List UInt8 → Prop

/-- The entries are these, and there is no other normal item. -/
structure Content (c : KvConf) (ns : ℕ → List ℕ) (f : Mem) (E : Entries) : Prop where
  live : ∀ pos key val, LiveAt c ns f pos key val ↔ E pos key val
  sound : ∀ i < c.blkNums, ∀ pos n, PlaceOf c ns i pos n → f (pos + 1) = itemStateNormal →
    ∃ key val, E pos key val

/-- No two entries have one key. -/
def KeysDistinct (E : Entries) : Prop :=
  ∀ ⦃pos pos' : ℕ⦄ ⦃key val val' : List UInt8⦄, E pos key val → E pos' key val' → pos = pos'

/-- The entries are those of the map. -/
def Represents (E : Entries) (m : KvMap) : Prop :=
  ∀ key val, m key = some val ↔ ∃ pos, E pos key val

/-- The store holds the map. -/
def Holds (c : KvConf) (ns : ℕ → List ℕ) (f : Mem) (m : KvMap) : Prop :=
  ∃ E, Content c ns f E ∧ KeysDistinct E ∧ Represents E m

/-! ## One entry -/

section Entry

variable {c : KvConf} {f f' : Mem} {pos pos' n : ℕ} {key key' val val' : List UInt8}

/-- An item header has at least eight bytes. -/
theorem itemHdrSize_ge (c : KvConf) : 8 ≤ itemHdrSize c := by
  obtain h | h := itemHdrSize_cases c <;> omega

/-- Bytes that are the same in another place. -/
theorem stands_move {bs : List UInt8} {d : ℕ} (h : Stands f (pos + d) bs)
    (heq : ∀ k < n, f' (pos' + k) = f (pos + k)) (hle : d + bs.length ≤ n) : Stands f' (pos' + d) bs := by
  have hread : readBytes f' (pos' + d) bs.length = readBytes f (pos + d) bs.length := by
    apply readBytes_congr
    intro k hk
    rw [Nat.add_assoc, Nat.add_assoc]
    exact heq (d + k) (by omega)
  exact hread.trans h

/-- An entry that is copied, or stays where it is. -/
theorem EntryAt.move (h : EntryAt c f pos key val) (hdr : HdrAt c f pos n)
    (heq : ∀ k < n, f' (pos' + k) = f (pos + k)) : EntryAt c f' pos' key val := by
  have hsize := hdr.size_spec.1
  have h8 := itemHdrSize_ge c
  have hhdr : readItemHdr c f' pos' = readItemHdr c f pos :=
    readItemHdr_congr fun k hk => heq k (by omega)
  rw [h.keyLen, h.valLen] at hsize
  refine ⟨?_, ?_, ?_, ?_, stands_move h.keyBytes heq (by omega), ?_⟩
  · rw [heq 1 (by omega)]
    exact h.normal
  · rw [heq 2 (by omega)]
    exact h.crc
  · rw [hhdr]
    exact h.keyLen
  · rw [hhdr]
    exact h.valLen
  · have hval := h.valBytes
    rw [Nat.add_assoc] at hval ⊢
    exact stands_move hval heq (by omega)

/-- An entry stays if its bytes do. -/
theorem EntryAt.congr (h : EntryAt c f pos key val) (hdr : HdrAt c f pos n)
    (heq : ∀ a, pos ≤ a → a < pos + n → f' a = f a) : EntryAt c f' pos key val :=
  h.move hdr fun k hk => heq _ (Nat.le_add_right _ _) (by omega)

/-- What stands in one place. -/
theorem stands_unique {bs bs' : List UInt8} (h : Stands f pos bs) (h' : Stands f pos bs')
    (hlen : bs.length = bs'.length) : bs = bs' := by
  calc bs = readBytes f pos bs.length := h.symm
    _ = readBytes f pos bs'.length := by rw [hlen]
    _ = bs' := h'

/-- There is one entry at a place. -/
theorem EntryAt.unique (h : EntryAt c f pos key val) (h' : EntryAt c f pos key' val') :
    key = key' ∧ val = val' := by
  have hkey : key = key' := stands_unique h.keyBytes h'.keyBytes (h.keyLen.symm.trans h'.keyLen)
  subst hkey
  exact ⟨rfl, stands_unique h.valBytes h'.valBytes (h.valLen.symm.trans h'.valLen)⟩

/-- An entry has its key. -/
theorem EntryAt.keyAt (h : EntryAt c f pos key val) : KeyAt c f pos key := ⟨h.normal, h.keyLen, h.keyBytes⟩

/-- And no other one. -/
theorem EntryAt.key_eq (h : EntryAt c f pos key val) (h' : KeyAt c f pos key') : key = key' :=
  stands_unique h.keyBytes h'.stands (h.keyLen.symm.trans h'.keyLen)

/-- What a search returns for the entry. -/
theorem EntryAt.foundItem (h : EntryAt c f pos key val) :
    (foundItem c f pos).hdr.keyLen = key.length ∧ (foundItem c f pos).hdr.valLen = val.length ∧
      (foundItem c f pos).store = key ++ val := by
  refine ⟨h.keyLen, h.valLen, ?_⟩
  change readBytes f (pos + itemHdrSize c) (_ + _) = _
  rw [h.keyLen, h.valLen, readBytes_add]
  exact congrArg₂ (· ++ ·) h.keyBytes h.valBytes

/-- An item that was stored. -/
theorem entryAt_stored {e : KvEntry} (he : e.Passes c) (h : Stands f pos (e.bytes c)) :
    EntryAt c f pos e.key e.val := by
  obtain ⟨hhdr, hkey, hval⟩ := readItemHdr_entry he h
  exact ⟨congrArg ItemHdr.state hhdr, congrArg ItemHdr.crc hhdr, congrArg ItemHdr.keyLen hhdr,
    congrArg ItemHdr.valLen hhdr, hkey, hval⟩

end Entry

/-! ## Places -/

section Places

variable {c : KvConf} {f : Mem} {ns ns' : ℕ → List ℕ} {i j w pos p n m : ℕ}

/-- The places of a block depend on its items only. -/
theorem placeOf_congr (h : ns' i = ns i) : PlaceOf c ns' i pos n ↔ PlaceOf c ns i pos n := by
  unfold PlaceOf
  rw [h]

/-- An empty block has no places. -/
theorem not_placeOf (h : ns i = []) : ¬ PlaceOf c ns i pos n := by
  rintro ⟨done, rest, hns, -⟩
  rw [h] at hns
  simp at hns

/-- Behind the last item of a row there is one more place. -/
theorem placeOf_append (h : ns' w = ns w ++ [m]) : PlaceOf c ns' w pos n ↔
    PlaceOf c ns w pos n ∨ pos = blkFirst c w + (ns w).sum ∧ n = m := by
  constructor
  · rintro ⟨done, rest, hns, rfl⟩
    rw [h] at hns
    rcases List.eq_nil_or_concat rest with rfl | ⟨rest, x, rfl⟩
    · obtain ⟨hdone, hm⟩ := List.append_inj' hns rfl
      obtain rfl : m = n := by simpa using hm
      exact .inr ⟨by rw [hdone], rfl⟩
    · rw [List.concat_eq_append, ← List.cons_append, ← List.append_assoc] at hns
      exact .inl ⟨done, rest, (List.append_inj' hns rfl).1, rfl⟩
  · rintro (⟨done, rest, hns, rfl⟩ | ⟨rfl, rfl⟩)
    · exact ⟨done, rest ++ [m], by rw [h, hns, List.append_assoc, List.cons_append], rfl⟩
    · exact ⟨ns w, [], h, rfl⟩

/-- Two places in one row. -/
theorem PlaceOf.apart_in (h : PlaceOf c ns i pos n) (h' : PlaceOf c ns i p m) :
    pos = p ∧ n = m ∨ pos + n ≤ p ∨ p + m ≤ pos := by
  obtain ⟨done, rest, hns, rfl⟩ := h
  obtain ⟨done', rest', hns', rfl⟩ := h'
  rw [hns] at hns'
  rcases List.append_eq_append_iff.1 hns' with ⟨t, rfl, ht⟩ | ⟨t, rfl, ht⟩
  · cases t with
    | nil =>
      obtain ⟨rfl, -⟩ := List.cons.inj ht
      exact .inl ⟨by simp, rfl⟩
    | cons x t =>
      obtain ⟨rfl, -⟩ := List.cons.inj ht
      rw [List.sum_append, List.sum_cons]
      exact .inr (.inl (by omega))
  · cases t with
    | nil =>
      obtain ⟨rfl, -⟩ := List.cons.inj ht
      exact .inl ⟨by simp, rfl⟩
    | cons x t =>
      obtain ⟨rfl, -⟩ := List.cons.inj ht
      rw [List.sum_append, List.sum_cons]
      exact .inr (.inr (by omega))

/-- An item is part of its row. -/
theorem PlaceOf.lt_sum (h : PlaceOf c ns i pos n) (hb : BlockOn c f i (ns i)) :
    pos < blkFirst c i + (ns i).sum := by
  have hlt := (h.bounds hb).2.2.hdr_lt
  obtain ⟨done, rest, hns, rfl⟩ := h
  rw [hns, List.sum_append, List.sum_cons]
  omega

/-- A block with items is not erased. -/
theorem FlashLaid.blockOf (h : FlashLaid c ns f) (hi : i < c.blkNums) (hp : PlaceOf c ns i pos n) :
    BlockOn c f i (ns i) := (h i hi).resolve_right fun hb => not_placeOf hb.nil hp

/-- A place lies in its block and has a header. -/
theorem FlashLaid.bounds (h : FlashLaid c ns f) (hi : i < c.blkNums) (hp : PlaceOf c ns i pos n) :
    blkFirst c i ≤ pos ∧ pos + n < blkStop c i ∧ HdrAt c f pos n := hp.bounds (h.blockOf hi hp)

/-- **Two items lie apart**, or are the same. -/
theorem PlaceOf.apart (h : PlaceOf c ns i pos n) (h' : PlaceOf c ns j p m) (hrows : FlashLaid c ns f)
    (hi : i < c.blkNums) (hj : j < c.blkNums) :
    i = j ∧ pos = p ∧ n = m ∨ pos + n ≤ p ∨ p + m ≤ pos := by
  by_cases hij : i = j
  · subst hij
    rcases h.apart_in h' with heq | hapart
    · exact .inl ⟨rfl, heq⟩
    · exact .inr hapart
  · obtain ⟨hlo, hhi, -⟩ := hrows.bounds hi h
    obtain ⟨hlo', hhi', -⟩ := hrows.bounds hj h'
    have hapart := blkStop_le hij (c := c)
    have hfi : i * c.blkSize + 4 = blkFirst c i := rfl
    have hfj : j * c.blkSize + 4 = blkFirst c j := rfl
    exact .inr (by omega)

end Places

/-! ## What the writes do to the entries -/

section Writes

variable {c : KvConf} {f f' : Mem} {ns ns' : ℕ → List ℕ} {i w p n : ℕ} {key val : List UInt8}
  {E : Entries}

/-- Where the items stay, so do the entries. -/
theorem FlashLaid.same (h : FlashLaid c ns f) (hsame : ItemsSame c f f') (h' : FlashLaid c ns f') {pos : ℕ} :
    (∃ i < c.blkNums, ∃ n, PlaceOf c ns i pos n ∧ EntryAt c f' pos key val) ↔
      ∃ i < c.blkNums, ∃ n, PlaceOf c ns i pos n ∧ EntryAt c f pos key val := by
  constructor
  · rintro ⟨i, hi, n, hp, he⟩
    have hbytes := hp.same (h.blockOf hi hp) hi hsame
    exact ⟨i, hi, n, hp, he.congr (h'.bounds hi hp).2.2 fun a ha hb => (hbytes a ha hb).symm⟩
  · rintro ⟨i, hi, n, hp, he⟩
    exact ⟨i, hi, n, hp, he.congr (h.bounds hi hp).2.2 (hp.same (h.blockOf hi hp) hi hsame)⟩

/-- **Nothing changes but states of blocks.** -/
theorem Content.same (h : Content c ns f E) (hrows : FlashLaid c ns f) (hrows' : FlashLaid c ns f')
    (hsame : ItemsSame c f f') : Content c ns f' E := by
  refine ⟨fun pos key val => (hrows.same hsame hrows').trans (h.live pos key val), ?_⟩
  intro i hi pos n hp hnormal
  have h8 := itemHdrSize_ge c
  have hlt := (hrows.bounds hi hp).2.2.hdr_lt
  rw [hp.same (hrows.blockOf hi hp) hi hsame (pos + 1) (by omega) (by omega)] at hnormal
  exact h.sound i hi pos n hp hnormal

/-- **One item is deleted.** -/
theorem Content.kill (h : Content c ns f E) (hrows : FlashLaid c ns f) (hrows' : FlashLaid c ns f')
    (hi : i < c.blkNums) (hp : PlaceOf c ns i p n) (hkill : f' (p + 1) = itemStateDelete)
    (hsame : ∀ a, a ≠ p + 1 → f' a = f a) : Content c ns f' fun pos key val => E pos key val ∧ pos ≠ p := by
  have h8 := itemHdrSize_ge c
  have hother : ∀ {j pos m : ℕ}, j < c.blkNums → PlaceOf c ns j pos m → f' (pos + 1) = itemStateNormal →
      pos ≠ p ∧ ∀ a, pos ≤ a → a < pos + m → f' a = f a := by
    intro j pos m hj hq hnormal
    have hne : pos ≠ p := by
      rintro rfl
      rw [hkill] at hnormal
      exact absurd hnormal (by decide)
    have hlt := (hrows.bounds hi hp).2.2.hdr_lt
    refine ⟨hne, fun a ha hb => hsame a ?_⟩
    rcases hq.apart hp hrows hj hi with ⟨-, heq, -⟩ | hapart
    · exact absurd heq hne
    · omega
  constructor
  · intro pos key val
    rw [← h.live]
    constructor
    · rintro ⟨j, hj, m, hq, he⟩
      obtain ⟨hne, hbytes⟩ := hother hj hq he.normal
      exact ⟨⟨j, hj, m, hq, he.congr (hrows'.bounds hj hq).2.2 fun a ha hb => (hbytes a ha hb).symm⟩, hne⟩
    · rintro ⟨⟨j, hj, m, hq, he⟩, hne⟩
      have hnormal : f' (pos + 1) = itemStateNormal := by
        rw [hsame _ (by omega)]
        exact he.normal
      exact ⟨j, hj, m, hq, he.congr (hrows.bounds hj hq).2.2 (hother hj hq hnormal).2⟩
  · intro j hj pos m hq hnormal
    obtain ⟨hne, hbytes⟩ := hother hj hq hnormal
    rw [hsame _ (by omega)] at hnormal
    obtain ⟨key, val, he⟩ := h.sound j hj pos m hq hnormal
    exact ⟨key, val, he, hne⟩

/-- **One item is added** behind the last one of a block. -/
theorem Content.append (h : Content c ns f E) (hrows : FlashLaid c ns f) (hrows' : FlashLaid c ns' f')
    (hw : w < c.blkNums) (hns : ns' w = ns w ++ [n]) (hother : ∀ j, j ≠ w → ns' j = ns j)
    (hp : p = blkFirst c w + (ns w).sum) (hentry : EntryAt c f' p key val)
    (hsame : ∀ a, a < p ∨ p + n ≤ a → f' a = f a) :
    Content c ns' f' fun pos k v => E pos k v ∨ pos = p ∧ k = key ∧ v = val := by
  have hplace : ∀ {j pos m : ℕ}, PlaceOf c ns' j pos m ↔
      PlaceOf c ns j pos m ∨ j = w ∧ pos = p ∧ m = n := by
    intro j pos m
    by_cases hjw : j = w
    · subst hjw
      rw [placeOf_append hns, hp]
      simp
    · rw [placeOf_congr (hother j hjw)]
      simp [hjw]
  have hnew : PlaceOf c ns' w p n := hplace.2 (.inr ⟨rfl, rfl, rfl⟩)
  have hold : ∀ {j pos m : ℕ}, j < c.blkNums → PlaceOf c ns j pos m → ∀ a, pos ≤ a → a < pos + m →
      f' a = f a := by
    intro j pos m hj hq a ha hb
    apply hsame
    rcases (hplace.2 (.inl hq)).apart hnew hrows' hj hw with ⟨rfl, rfl, rfl⟩ | hapart
    · -- the new place is none of the old ones
      obtain ⟨-, hhi, -⟩ := hrows.bounds hj hq
      obtain ⟨done, rest, hdone, hpos⟩ := hq
      rw [hdone, List.sum_append, List.sum_cons] at hp
      omega
    · omega
  constructor
  · intro pos k v
    rw [← h.live]
    constructor
    · rintro ⟨j, hj, m, hq, he⟩
      rcases hplace.1 hq with hq | ⟨rfl, rfl, rfl⟩
      · have hdr := (hrows.bounds hj hq).2.2
        have hdr' : HdrAt c f' pos m := hdr.congr fun k hk => by
          have := hdr.hdr_lt
          exact hold hj hq _ (by omega) (by omega)
        exact .inl ⟨j, hj, m, hq, he.congr hdr' fun a ha hb => (hold hj hq a ha hb).symm⟩
      · exact .inr ⟨rfl, he.unique hentry⟩
    · rintro (⟨j, hj, m, hq, he⟩ | ⟨rfl, rfl, rfl⟩)
      · exact ⟨j, hj, m, hplace.2 (.inl hq), he.congr (hrows.bounds hj hq).2.2 (hold hj hq)⟩
      · exact ⟨w, hw, n, hnew, hentry⟩
  · intro j hj pos m hq hnormal
    rcases hplace.1 hq with hq | ⟨rfl, rfl, rfl⟩
    · have h8 := itemHdrSize_ge c
      have hlt := (hrows.bounds hj hq).2.2.hdr_lt
      rw [hold hj hq (pos + 1) (by omega) (by omega)] at hnormal
      obtain ⟨k, v, he⟩ := h.sound j hj pos m hq hnormal
      exact ⟨k, v, .inl he⟩
    · exact ⟨key, val, .inr ⟨rfl, rfl, rfl⟩⟩

/-- **A block is formatted.** -/
theorem Content.format (h : Content c ns f E) (hrows : FlashLaid c ns f) (hi : i < c.blkNums) (hns : ns' i = [])
    (hother : ∀ j, j ≠ i → ns' j = ns j)
    (hsame : ∀ j < c.blkNums, j ≠ i → ∀ a, blkFirst c j ≤ a → a < blkStop c j → f' a = f a) :
    Content c ns' f' fun pos key val => E pos key val ∧ ¬ (blkFirst c i ≤ pos ∧ pos < blkStop c i) := by
  have hplace : ∀ {j pos m : ℕ}, j < c.blkNums →
      (PlaceOf c ns' j pos m ↔ PlaceOf c ns j pos m ∧ ¬ (blkFirst c i ≤ pos ∧ pos < blkStop c i)) := by
    intro j pos m hj
    by_cases hji : j = i
    · subst hji
      refine ⟨fun hp => absurd hp (not_placeOf hns), fun hp => absurd ?_ hp.2⟩
      obtain ⟨hlo, hhi, -⟩ := hrows.bounds hj hp.1
      exact ⟨hlo, by omega⟩
    · rw [placeOf_congr (hother j hji)]
      refine ⟨fun hp => ⟨hp, fun hin => ?_⟩, And.left⟩
      obtain ⟨hlo, hhi, -⟩ := hrows.bounds hj hp
      have hapart := blkStop_le hji (c := c)
      have hfi : i * c.blkSize + 4 = blkFirst c i := rfl
      have hfj : j * c.blkSize + 4 = blkFirst c j := rfl
      omega
  have hbytes : ∀ {j pos m : ℕ}, j < c.blkNums → PlaceOf c ns' j pos m → ∀ a, pos ≤ a → a < pos + m →
      f' a = f a := by
    intro j pos m hj hq a ha hb
    have hji : j ≠ i := by
      rintro rfl
      exact not_placeOf hns hq
    obtain ⟨hlo, hhi, -⟩ := hrows.bounds hj ((hplace hj).1 hq).1
    exact hsame j hj hji a (by omega) (by omega)
  constructor
  · intro pos key val
    rw [← h.live]
    constructor
    · rintro ⟨j, hj, m, hq, he⟩
      obtain ⟨hq', hout⟩ := (hplace hj).1 hq
      have hdr := (hrows.bounds hj hq').2.2
      have hdr' : HdrAt c f' pos m := hdr.congr fun k hk => by
        have := hdr.hdr_lt
        exact hbytes hj hq _ (by omega) (by omega)
      exact ⟨⟨j, hj, m, hq', he.congr hdr' fun a ha hb => (hbytes hj hq a ha hb).symm⟩, hout⟩
    · rintro ⟨⟨j, hj, m, hq, he⟩, hout⟩
      have hq' := (hplace hj).2 ⟨hq, hout⟩
      exact ⟨j, hj, m, hq', he.congr (hrows.bounds hj hq).2.2 (hbytes hj hq')⟩
  · intro j hj pos m hq hnormal
    obtain ⟨hq', hout⟩ := (hplace hj).1 hq
    have h8 := itemHdrSize_ge c
    have hlt := (hrows.bounds hj hq').2.2.hdr_lt
    rw [hbytes hj hq (pos + 1) (by omega) (by omega)] at hnormal
    obtain ⟨key, val, he⟩ := h.sound j hj pos m hq' hnormal
    exact ⟨key, val, he, hout⟩

end Writes

/-! ## Entries and their positions -/

section Positions

variable {c : KvConf} {f : Mem} {ns : ℕ → List ℕ} {p : ℕ} {key val : List UInt8}
  {E E' : Entries}

/-- The content is that of equal entries. -/
theorem Content.congr (h : Content c ns f E) (heq : ∀ pos key val, E pos key val ↔ E' pos key val) :
    Content c ns f E' := by
  refine ⟨fun pos key val => (h.live pos key val).trans (heq pos key val), fun i hi pos n hp hnormal => ?_⟩
  obtain ⟨key, val, he⟩ := h.sound i hi pos n hp hnormal
  exact ⟨key, val, (heq pos key val).1 he⟩

/-- One entry at a place. -/
theorem Content.unique (h : Content c ns f E) (he : E p key val) {key' val' : List UInt8}
    (he' : E p key' val') : key = key' ∧ val = val' := by
  obtain ⟨-, -, -, -, he⟩ := (h.live _ _ _).2 he
  obtain ⟨-, -, -, -, he'⟩ := (h.live _ _ _).2 he'
  exact he.unique he'

end Positions

/-! ## Deletions -/

section Deletions

variable {c : KvConf} {s : KvMgr} {ns : ℕ → List ℕ} {i p n : ℕ} {E : Entries}

/-- An entry in a block is in its row. -/
theorem Content.place {f : Mem} (h : Content c ns f E) (hrows : FlashLaid c ns f)
    {key val : List UInt8} (he : E p key val) (hlo : blkFirst c i ≤ p) (hhi : p < blkStop c i) :
    ∃ n, PlaceOf c ns i p n ∧ EntryAt c f p key val := by
  obtain ⟨j, hj, n, hp, hentry⟩ := (h.live _ _ _).2 he
  obtain ⟨hlo', hhi', -⟩ := hrows.bounds hj hp
  have hdiv : p / c.blkSize = j := div_blkSize hlo' (by omega)
  obtain rfl : i = j := (div_blkSize hlo hhi).symm.trans hdiv
  exact ⟨n, hp, hentry⟩

/-- **An item is deleted.** -/
theorem Content.delete (h : Content c ns s.flash E) (hl : LaidOut c c.blkNums ns s) (hi : i < c.blkNums)
    (hp : PlaceOf c ns i p n) (hnormal : s.flash (p + 1) = itemStateNormal) :
    Content c ns (kvItemKill c s p).flash fun pos key val => E pos key val ∧ pos ≠ p := by
  have hdr := (hp.bounds (hl.block i hi)).2.2
  obtain ⟨hlt, hdvd⟩ : p < c.blkNums * c.blkSize ∧ 4 ∣ p := by
    obtain ⟨done, rest, hns, rfl⟩ := hp
    exact hl.itemAt_lt hi hns
  obtain ⟨hcleared, -⟩ := hl.cleared hlt hdvd hdr.magic hnormal
  obtain ⟨hkilled, -⟩ := hl.kill hlt hdvd hdr.magic hnormal
  have hk := killed_stateSet hdvd hdr.magic hnormal
  have h' := h.kill hl.flashLaid hcleared.flashLaid hi hp hk.state hk.same
  exact h'.same hcleared.flashLaid hkilled.flashLaid (itemsSame_kill c s p)

/-- The callback deletes the entries whose keys meet `P`. -/
def DeletesKeys (c : KvConf) (cb : KvCallback) (P : List UInt8 → Prop) [DecidablePred P] : Prop :=
  ∀ t pos n key val, HdrAt c t.flash pos n → EntryAt c t.flash pos key val →
    (cb.func c t (itemAt c t.flash pos)).2.2 = if P key then kvItemKill c t pos else t

/-- The callback that deletes by prefix never stops. -/
theorem itemDelByPrefixCb_cont (keyPrefix : List UInt8) (s : KvMgr) (item : KvItem) :
    (itemDelByPrefixCb c keyPrefix s item).1 = .cont := by
  unfold itemDelByPrefixCb
  dsimp only
  split_ifs <;> rfl

/-- The key of an entry, as the callbacks read and compare it. -/
theorem EntryAt.take_eq {f : Mem} {key val q : List UInt8} (h : EntryAt c f p key val) :
    (q.length ≤ key.length ∧ (readBytes f (p + itemHdrSize c) (readItemHdr c f p).keyLen).take q.length = q) ↔
      q <+: key := by
  have hkey : readBytes f (p + itemHdrSize c) (readItemHdr c f p).keyLen = key := by
    rw [h.keyLen]
    exact h.keyBytes
  rw [hkey, List.prefix_iff_eq_take]
  refine ⟨fun hq => hq.2.symm, fun hq => ⟨?_, hq.symm⟩⟩
  have hlen := congrArg List.length hq
  rw [List.length_take] at hlen
  omega

/-- And deletes exactly the keys with the prefix. -/
theorem deletesKeys_delByPrefix (c : KvConf) (keyPrefix : List UInt8) :
    DeletesKeys c (.delByPrefix keyPrefix) fun key => keyPrefix <+: key := by
  intro t pos n key val _ h
  have htake := h.take_eq (q := keyPrefix)
  have hlen : (itemAt c t.flash pos).hdr.keyLen = key.length := h.keyLen
  change (itemDelByPrefixCb c keyPrefix t (itemAt c t.flash pos)).2.2 =
    if keyPrefix <+: key then kvItemKill c t pos else t
  unfold itemDelByPrefixCb
  rw [hlen]
  by_cases hlt : key.length < keyPrefix.length
  · rw [if_pos hlt, if_neg]
    rw [← htake]
    omega
  · rw [if_neg hlt]
    rw [h.keyLen] at htake
    dsimp only
    by_cases hpre : keyPrefix <+: key
    · rw [if_pos hpre, if_pos (by exact (htake.2 hpre).2)]
      rfl
    · rw [if_neg hpre, if_neg (by exact fun heq => hpre (htake.1 ⟨not_lt.1 hlt, heq⟩))]

/-- The callback that deletes all items deletes the keys that are not spared. -/
theorem deletesKeys_delAll (c : KvConf) (exPrefix : Option (List UInt8)) :
    DeletesKeys c (.delAll exPrefix) fun key => ¬ Spared exPrefix key := by
  intro t pos n key val hdr h
  have hpos : 0 < (itemAt c t.flash pos).hdr.keyLen := hdr.key_pos
  have hlen : (itemAt c t.flash pos).hdr.keyLen = key.length := h.keyLen
  change (itemDelAllCb c exPrefix t (itemAt c t.flash pos)).2.2 = _
  unfold itemDelAllCb
  rw [if_pos hpos]
  cases exPrefix with
  | none =>
    have hall : ¬ Spared none key := by
      rintro ⟨p, hp, -⟩
      cases hp
    rw [if_pos hall]
    rfl
  | some q =>
    have htake := h.take_eq (q := q)
    have hspared : Spared (some q) key ↔ q <+: key := by simp [Spared]
    dsimp only
    rw [hlen]
    by_cases hlt : key.length < q.length
    · rw [if_pos hlt, if_pos]
      · rfl
      · rw [hspared, ← htake]
        omega
    · rw [if_neg hlt]
      rw [h.keyLen] at htake
      by_cases hpre : q <+: key
      · rw [if_neg (by exact not_not.2 (htake.2 hpre).2), if_neg (not_not.2 (hspared.2 hpre))]
      · rw [if_pos (by exact fun heq => hpre (htake.1 ⟨not_lt.1 hlt, heq⟩)),
          if_pos fun hs => hpre (hspared.1 hs)]
        rfl

/-- The items of a row up to some place. -/
theorem Content.passed {f : Mem} {m : ℕ} {done rest : List ℕ} (h : Content c ns f E) (hrows : FlashLaid c ns f)
    (hi : i < c.blkNums) (hns : ns i = done ++ m :: rest) {key val : List UInt8} (he : E p key val)
    (hlo : blkFirst c i ≤ p) (hhi : p < blkFirst c i + (done ++ [m]).sum) :
    p < blkFirst c i + done.sum ∨ p = blkFirst c i + done.sum := by
  have hplace : PlaceOf c ns i (blkFirst c i + done.sum) m := ⟨done, rest, hns, rfl⟩
  obtain ⟨-, hstop, -⟩ := hrows.bounds hi hplace
  rw [List.sum_append, List.sum_singleton] at hhi
  obtain ⟨n, hp, -⟩ := h.place hrows he hlo (by omega)
  rcases hp.apart_in hplace with ⟨heq, -⟩ | hapart
  · exact .inr heq
  · omega

/-- **A traversal that deletes** takes out the entries of its block whose keys are meant. -/
theorem Content.traverse (h : Content c ns s.flash E) (hl : Layout c ns s) (hi : i < c.blkNums)
    {cb : KvCallback} (hcb : cb.Deletes) (hcont : ∀ u item, (cb.func c u item).1 = .cont)
    {P : List UInt8 → Prop} [DecidablePred P] (hkeys : DeletesKeys c cb P) :
    Content c ns (kvItemTraverse c (cb.func c) s i).2.flash fun pos key val =>
      E pos key val ∧ ¬ (P key ∧ blkFirst c i ≤ pos ∧ pos < blkStop c i) := by
  have hrows := hl.laid.flashLaid
  have hrule := hl.laid.traverse_rule hi cb hcb
    (I := fun done t => Content c ns t.flash fun pos key val =>
      E pos key val ∧ ¬ (P key ∧ blkFirst c i ≤ pos ∧ pos < blkFirst c i + done.sum)) ?_ ?_ ?_
  · obtain ⟨t, hlt, -, hr⟩ := hrule
    obtain ⟨hr, ht⟩ := hr.resolve_left fun hstop => by
      obtain ⟨-, u, item, hne⟩ := hstop
      exact hne (hcont u item)
    rw [hr]
    refine ht.congr fun pos key val => and_congr_right fun he => not_congr (and_congr_right fun _ =>
      and_congr_right fun hlo => ⟨fun hlt => ?_, fun hlt => ?_⟩)
    · exact hlt.trans (hl.laid.block i hi).fits
    · obtain ⟨m, hp, -⟩ := h.place hrows he hlo hlt
      exact hp.lt_sum (hl.laid.block i hi)
  · refine h.congr fun pos key val => ⟨fun he => ⟨he, fun hin => ?_⟩, And.left⟩
    rw [List.sum_nil] at hin
    omega
  · intro done n rest t hns hlt _ ht hdead
    obtain ⟨hlm, -⟩ := hlt.markDirty i
    refine (ht.same hlt.flashLaid hlm.flashLaid (itemsSame_markDirty t i)).congr fun pos key val => ?_
    refine and_congr_right fun he => not_congr (and_congr_right fun hP => and_congr_right fun hlo => ?_)
    refine ⟨fun hhi => ?_, fun hhi => ?_⟩
    · rw [List.sum_append, List.sum_singleton]
      omega
    · by_contra hge
      have ht' : E pos key val ∧ ¬ (P key ∧ blkFirst c i ≤ pos ∧ pos < blkFirst c i + done.sum) :=
        ⟨he, fun hin => hge hin.2.2⟩
      have hpass := (ht.passed hlt.flashLaid hi hns ht' hlo hhi).resolve_left hge
      obtain ⟨-, -, -, -, hentry⟩ := (ht.live _ _ _).2 ht'
      have hnormal := hentry.normal
      rw [hpass, hdead] at hnormal
      exact absurd hnormal (by decide)
  · intro done n rest t hns hlt _ ht hnormal
    have hplace : PlaceOf c ns i (blkFirst c i + done.sum) n := ⟨done, rest, hns, rfl⟩
    have hdr := (hplace.bounds (hlt.block i hi)).2.2
    obtain ⟨key₀, val₀, he₀⟩ := ht.sound i hi _ n hplace hnormal
    obtain ⟨-, -, -, -, hentry⟩ := (ht.live _ _ _).2 he₀
    rw [hkeys t _ n key₀ val₀ hdr hentry]
    -- whether the entry goes or stays, the others are those from before
    have hstep : ∀ pos key val, E pos key val → blkFirst c i ≤ pos →
        pos < blkFirst c i + (done ++ [n]).sum → P key →
        (pos < blkFirst c i + done.sum) ∨ pos = blkFirst c i + done.sum ∧ key = key₀ := by
      intro pos key val he hlo hhi hP
      by_cases hge : pos < blkFirst c i + done.sum
      · exact .inl hge
      · have ht' : E pos key val ∧ ¬ (P key ∧ blkFirst c i ≤ pos ∧ pos < blkFirst c i + done.sum) :=
          ⟨he, fun hin => hge hin.2.2⟩
        have hpass := (ht.passed hlt.flashLaid hi hns ht' hlo hhi).resolve_left hge
        refine .inr ⟨hpass, ?_⟩
        subst hpass
        exact (ht.unique ht' he₀).1
    have hless : ∀ {pos : ℕ}, pos < blkFirst c i + done.sum → pos < blkFirst c i + (done ++ [n]).sum := by
      intro pos hpos
      rw [List.sum_append]
      omega
    have hlast : blkFirst c i + done.sum < blkFirst c i + (done ++ [n]).sum := by
      have := hdr.hdr_lt
      rw [List.sum_append, List.sum_singleton]
      omega
    split
    case isTrue hP₀ =>
      refine (ht.delete hlt hi hplace hnormal).congr fun pos key val => ?_
      constructor
      · rintro ⟨⟨he, hnot⟩, hne⟩
        refine ⟨he, fun hin => ?_⟩
        rcases hstep pos key val he hin.2.1 hin.2.2 hin.1 with hlt | ⟨heq, -⟩
        · exact hnot ⟨hin.1, hin.2.1, hlt⟩
        · exact hne heq
      · rintro ⟨he, hnot⟩
        refine ⟨⟨he, fun hin => hnot ⟨hin.1, hin.2.1, hless hin.2.2⟩⟩, ?_⟩
        rintro rfl
        refine hnot ⟨?_, Nat.le_add_right _ _, hlast⟩
        rw [(h.unique he he₀.1).1]
        exact hP₀
    case isFalse hP₀ =>
      refine ht.congr fun pos key val => and_congr_right fun he => not_congr (and_congr_right fun hP =>
        and_congr_right fun hlo => ⟨hless, fun hhi => ?_⟩)
      rcases hstep pos key val he hlo hhi hP with hlt | ⟨-, rfl⟩
      · exact hlt
      · exact absurd hP hP₀

/-- In all blocks. -/
theorem Content.foldl (h : Content c ns s.flash E) (hl : Layout c ns s) {cb : KvCallback}
    (hcb : cb.Deletes) (hcont : ∀ u item, (cb.func c u item).1 = .cont) {P : List UInt8 → Prop}
    [DecidablePred P] (hkeys : DeletesKeys c cb P) {is : List ℕ} (his : ∀ i ∈ is, i < c.blkNums) :
    Content c ns (is.foldl (fun s i => (kvItemTraverse c (cb.func c) s i).2) s).flash fun pos key val =>
      E pos key val ∧ ¬ (P key ∧ ∃ i ∈ is, blkFirst c i ≤ pos ∧ pos < blkStop c i) := by
  induction is generalizing s E with
  | nil => exact h.congr fun pos key val => by simp
  | cons i is ih =>
    have hi := his i (by simp)
    have h' := h.traverse hl hi hcb hcont hkeys
    refine (ih h' (hl.traverse hi cb hcb).1 fun j hj => his j (List.mem_cons_of_mem _ hj)).congr
      fun pos key val => ?_
    simp only [List.exists_mem_cons_iff, and_assoc, and_or_left, not_or]

/-- **All entries whose keys are meant are gone.** -/
theorem Content.deleteAll (h : Content c ns s.flash E) (hl : Layout c ns s) {cb : KvCallback}
    (hcb : cb.Deletes) (hcont : ∀ u item, (cb.func c u item).1 = .cont) {P : List UInt8 → Prop}
    [DecidablePred P] (hkeys : DeletesKeys c cb P) :
    Content c ns ((List.range c.blkNums).foldl (fun s i => (kvItemTraverse c (cb.func c) s i).2) s).flash
      fun pos key val => E pos key val ∧ ¬ P key := by
  refine (h.foldl hl hcb hcont hkeys fun i hi => List.mem_range.1 hi).congr fun pos key val =>
    and_congr_right fun he => not_congr ⟨And.left, fun hP => ⟨hP, ?_⟩⟩
  obtain ⟨i, hi, n, hp, -⟩ := (h.live _ _ _).2 he
  obtain ⟨hlo, hhi, -⟩ := hp.bounds (hl.laid.block i hi)
  exact ⟨i, List.mem_range.2 hi, hlo, by omega⟩

end Deletions

/-! ## The map -/

section Map

variable {c : KvConf} {f f' : Mem} {ns : ℕ → List ℕ} {p old : ℕ} {key val val' : List UInt8} {m : KvMap}
  {E E' : Entries} {found : Option KvItem}

/-- What a search finds is the entry with the key. -/
theorem FoundAll.entry (hfound : FoundAll c ns f key (List.range c.blkNums) found) (h : Content c ns f E) :
    found = none ∧ (∀ pos val, ¬ E pos key val) ∨
      ∃ i < c.blkNums, ∃ pos n val, found = some (foundItem c f pos) ∧ PlaceOf c ns i pos n ∧
        EntryAt c f pos key val ∧ E pos key val := by
  cases found with
  | none =>
    refine .inl ⟨rfl, fun pos val he => ?_⟩
    obtain ⟨i, hi, n, hp, he⟩ := (h.live _ _ _).2 he
    exact hfound i (List.mem_range.2 hi) pos n hp he.keyAt
  | some item =>
    obtain ⟨i, hi, pos, n, hp, hkey, rfl⟩ := hfound
    obtain ⟨key', val, he⟩ := h.sound i hi pos n hp hkey.normal
    obtain ⟨-, -, -, -, hentry⟩ := (h.live _ _ _).2 he
    obtain rfl := hentry.key_eq hkey
    exact .inr ⟨i, hi, pos, n, val, rfl, hp, hentry, he⟩

/-- An entry with a new key. -/
theorem represents_add (p : ℕ) (val : List UInt8) (hd : KeysDistinct E) (hr : Represents E m)
    (hnew : ∀ pos val, ¬ E pos key val) :
    KeysDistinct (fun pos k v => E pos k v ∨ pos = p ∧ k = key ∧ v = val) ∧
      Represents (fun pos k v => E pos k v ∨ pos = p ∧ k = key ∧ v = val)
        (Function.update m key (some val)) := by
  constructor
  · rintro pos pos' k v v' (he | ⟨rfl, rfl, rfl⟩) (he' | ⟨rfl, hk, hv⟩)
    · exact hd he he'
    · exact absurd (hk ▸ he) (hnew _ _)
    · exact absurd he' (hnew _ _)
    · rfl
  · intro k v
    by_cases hk : k = key
    · subst hk
      rw [Function.update_self, Option.some.injEq]
      constructor
      · rintro rfl
        exact ⟨p, .inr ⟨rfl, rfl, rfl⟩⟩
      · rintro ⟨pos, he | ⟨-, -, rfl⟩⟩
        · exact absurd he (hnew _ _)
        · rfl
    · rw [Function.update_of_ne hk, hr]
      exact exists_congr fun pos => ⟨Or.inl, fun he => he.resolve_right fun h => hk h.2.1⟩

/-- An entry is gone. -/
theorem represents_remove (hd : KeysDistinct E) (hr : Represents E m) (he : E old key val)
    (hkey : ∀ k v, E old k v → k = key) :
    KeysDistinct (fun pos k v => E pos k v ∧ pos ≠ old) ∧ (∀ pos v, ¬ (E pos key v ∧ pos ≠ old)) ∧
      Represents (fun pos k v => E pos k v ∧ pos ≠ old) (Function.update m key none) := by
  refine ⟨fun _ _ _ _ _ h h' => hd h.1 h'.1, fun pos v h => h.2 (hd h.1 he), fun k v => ?_⟩
  by_cases hk : k = key
  · subst hk
    rw [Function.update_self]
    refine ⟨fun h => absurd h.symm (Option.some_ne_none v), ?_⟩
    rintro ⟨pos, hpos, hne⟩
    exact absurd (hd hpos he) hne
  · rw [Function.update_of_ne hk, hr]
    refine exists_congr fun pos => ⟨fun hpos => ⟨hpos, ?_⟩, And.left⟩
    rintro rfl
    exact hk (hkey k v hpos)

/-- Entries are gone by their keys. -/
theorem represents_filter (hd : KeysDistinct E) (hr : Represents E m) (P : List UInt8 → Prop)
    [DecidablePred P] : KeysDistinct (fun pos k v => E pos k v ∧ ¬ P k) ∧
      Represents (fun pos k v => E pos k v ∧ ¬ P k) fun k => if P k then none else m k := by
  refine ⟨fun _ _ _ _ _ h h' => hd h.1 h'.1, fun k v => ?_⟩
  by_cases hk : P k
  · simp [hk]
  · simp [hk, hr k v]

/-- Entries in some places are in other places now. -/
theorem represents_moved {G : Entries} {In : ℕ → Prop} (hd : KeysDistinct E) (hr : Represents E m)
    (hG : KeysDistinct G) (hmoved : ∀ k v, (∃ pos, G pos k v) ↔ ∃ pos, E pos k v ∧ In pos)
    (hout : ∀ pos k v, G pos k v → ¬ In pos) :
    KeysDistinct (fun pos k v => (E pos k v ∨ G pos k v) ∧ ¬ In pos) ∧
      Represents (fun pos k v => (E pos k v ∨ G pos k v) ∧ ¬ In pos) m := by
  have hapart : ∀ {pos pos' : ℕ} {k v v' : List UInt8}, E pos k v → ¬ In pos → ¬ G pos' k v' := by
    intro pos pos' k v v' he hnot hg
    obtain ⟨pos₀, he₀, hin⟩ := (hmoved k v').1 ⟨pos', hg⟩
    obtain rfl := hd he he₀
    exact hnot hin
  constructor
  · rintro pos pos' k v v' ⟨he | hg, hnot⟩ ⟨he' | hg', hnot'⟩
    · exact hd he he'
    · exact absurd hg' (hapart he hnot)
    · exact absurd hg (hapart he' hnot')
    · exact hG hg hg'
  · intro k v
    rw [hr]
    constructor
    · rintro ⟨pos, he⟩
      by_cases hin : In pos
      · obtain ⟨pos', hg⟩ := (hmoved k v).2 ⟨pos, he, hin⟩
        exact ⟨pos', .inr hg, hout pos' k v hg⟩
      · exact ⟨pos, .inl he, hin⟩
    · rintro ⟨pos, he | hg, -⟩
      · exact ⟨pos, he⟩
      · obtain ⟨pos', he, -⟩ := (hmoved k v).1 ⟨pos, hg⟩
        exact ⟨pos', he⟩

/-- The store holds the same map if its items stay. -/
theorem Holds.same (h : Holds c ns f m) (hrows : FlashLaid c ns f) (hrows' : FlashLaid c ns f')
    (hsame : ItemsSame c f f') : Holds c ns f' m := by
  obtain ⟨E, hE, hd, hr⟩ := h
  exact ⟨E, hE.same hrows hrows' hsame, hd, hr⟩

end Map

end GenieSdk.Analysis.Kv
