import GenieSdk.Analysis.KvItems
import GenieSdk.Analysis.KvStart

/-!
# What recovery deletes

`__item_recovery_cb` deletes what stands at the old offset of an item if it looks like an item with the same key.
The offset may be out of date, and then it may point into an item. `RecoverySafe` says that it points into no
normal item in this way, but to places that may be deleted; then nothing else is (`KilledIn`).
-/

set_option autoImplicit false

namespace GenieSdk.Analysis.Kv

open GenieSdk.Lib
open GenieSdk.Model

/-- From `off` on the bytes before `stop` are those of a normal item with the key, as far as they go. -/
structure LooksLike (c : KvConf) (f : Mem) (off stop : ℕ) (key : List UInt8) : Prop where
  magic : f off = itemMagicNum
  normal : f (off + 1) = itemStateNormal
  keyLen : (f (off + 3)).toNat = key.length
  keyBytes : ∀ k < key.length, off + itemHdrSize c + k < stop → f (off + itemHdrSize c + k) = key.getD k 0

instance (c : KvConf) (f : Mem) (off stop : ℕ) (key : List UInt8) : Decidable (LooksLike c f off stop key) :=
  decidable_of_iff (f off = itemMagicNum ∧ f (off + 1) = itemStateNormal ∧ (f (off + 3)).toNat = key.length ∧
    ∀ k < key.length, off + itemHdrSize c + k < stop → f (off + itemHdrSize c + k) = key.getD k 0)
    ⟨fun h => ⟨h.1, h.2.1, h.2.2.1, h.2.2.2⟩, fun h => ⟨h.magic, h.normal, h.keyLen, h.keyBytes⟩⟩

/-- The item has an old offset that recovery follows. -/
def Stale (item : KvItem) : Prop := item.hdr.originOff ≠ 0 ∧ item.pos ≠ item.hdr.originOff

instance (item : KvItem) : Decidable (Stale item) := by
  unfold Stale
  infer_instance

/-- A normal item of a row. -/
structure NormalAt (c : KvConf) (ns : ℕ → List ℕ) (f : Mem) (i pos n : ℕ) : Prop where
  lt : i < c.blkNums
  place : PlaceOf c ns i pos n
  normal : f (pos + 1) = itemStateNormal

/-- Where an old offset points into a normal item, and what stands there looks like one with the key, it is an
item that may be deleted. -/
def RecoverySafe (c : KvConf) (ns : ℕ → List ℕ) (A : ℕ → Prop) (f : Mem) : Prop :=
  ∀ i pos n, NormalAt c ns f i pos n → Stale (itemAt c f pos) → ∀ j p m, NormalAt c ns f j p m →
    p ≤ (itemAt c f pos).hdr.originOff → (itemAt c f pos).hdr.originOff < p + m →
    LooksLike c f (itemAt c f pos).hdr.originOff (p + m) (itemKey c f (itemAt c f pos)) →
    (itemAt c f pos).hdr.originOff = p ∧ A p

/-- `f` is `f₀`, but some of the items in `A` are deleted. -/
structure KilledIn (c : KvConf) (ns : ℕ → List ℕ) (A : ℕ → Prop) (f₀ f : Mem) : Prop where
  live : ∀ i p n, NormalAt c ns f₀ i p n → (∀ a, p ≤ a → a < p + n → f a = f₀ a) ∨
    A p ∧ f (p + 1) = itemStateDelete ∧ ∀ a, p ≤ a → a < p + n → a ≠ p + 1 → f a = f₀ a
  dead : ∀ i < c.blkNums, ∀ p n, PlaceOf c ns i p n → f₀ (p + 1) ≠ itemStateNormal →
    f (p + 1) ≠ itemStateNormal

section Killed

variable {c : KvConf} {ns : ℕ → List ℕ} {A : ℕ → Prop} {f₀ f f' : Mem} {i j k p pos m n off : ℕ}
  {E : Entries} {s : KvMgr} {done rest : List ℕ}

/-- Nothing is killed. -/
theorem KilledIn.refl (c : KvConf) (ns : ℕ → List ℕ) (A : ℕ → Prop) (f : Mem) : KilledIn c ns A f f :=
  ⟨fun _ _ _ _ => .inl fun _ _ _ => rfl, fun _ _ _ _ _ h => h⟩

/-- Items begin and end at multiples of four. -/
theorem PlaceOf.dvd (hp : PlaceOf c ns i pos n) (h : BlockOn c f i (ns i)) : 4 ∣ pos ∧ 4 ∣ n := by
  obtain ⟨done, rest, hns, rfl⟩ := hp
  rw [hns] at h
  exact ⟨(blkFirst_dvd c i).add (laidFrom_append.1 h.laid).1.dvd, h.hdrAt.size_spec.2⟩

/-- The same is killed in a flash with the same items. -/
theorem KilledIn.same (h : KilledIn c ns A f₀ f) (hf : FlashLaid c ns f₀) (hsame : ItemsSame c f f') :
    KilledIn c ns A f₀ f' := by
  have hbytes : ∀ {i p n a : ℕ}, i < c.blkNums → PlaceOf c ns i p n → p ≤ a → a < p + n → f' a = f a := by
    intro i p n a hi hp ha hb
    obtain ⟨hlo, hhi, -⟩ := hf.bounds hi hp
    exact hsame i hi a (by omega) (by omega)
  have h8 := itemHdrSize_ge c
  refine ⟨fun i p n hp => ?_, fun i hi p n hp hdead => ?_⟩
  · have hlt := (hf.bounds hp.lt hp.place).2.2.hdr_lt
    rcases h.live i p n hp with hall | ⟨hA, hst, hall⟩
    · exact .inl fun a ha hb => (hbytes hp.lt hp.place ha hb).trans (hall a ha hb)
    · refine .inr ⟨hA, ?_, fun a ha hb hne => (hbytes hp.lt hp.place ha hb).trans (hall a ha hb hne)⟩
      rw [hbytes hp.lt hp.place (by omega) (by omega)]
      exact hst
  · have hlt := (hf.bounds hi hp).2.2.hdr_lt
    rw [hbytes hi hp (by omega) (by omega)]
    exact h.dead i hi p n hp hdead

/-- A normal item is as it was. -/
theorem KilledIn.normal (h : KilledIn c ns A f₀ f) (hi : i < c.blkNums) (hp : PlaceOf c ns i p n)
    (hnormal : f (p + 1) = itemStateNormal) :
    NormalAt c ns f₀ i p n ∧ ∀ a, p ≤ a → a < p + n → f a = f₀ a := by
  have hnormal₀ : f₀ (p + 1) = itemStateNormal := by
    by_contra hdead
    exact h.dead i hi p n hp hdead hnormal
  refine ⟨⟨hi, hp, hnormal₀⟩, ?_⟩
  rcases h.live i p n ⟨hi, hp, hnormal₀⟩ with hall | ⟨-, hst, -⟩
  · exact hall
  · rw [hnormal] at hst
    exact absurd hst (by decide)

/-- Something is deleted in an item that is dead already, or is an item in `A`. -/
theorem KilledIn.kill (h : KilledIn c ns A f₀ f) (hf : FlashLaid c ns f₀) (hk : Killed f f' off)
    (hj : j < c.blkNums) (hp : PlaceOf c ns j p m) (hlo : p ≤ off) (hhi : off < p + m)
    (hsafe : f₀ (p + 1) = itemStateNormal → off = p ∧ A p) : KilledIn c ns A f₀ f' := by
  obtain ⟨hdvd, hdvd'⟩ := hp.dvd (hf.blockOf hj hp)
  have hoff := hk.dvd
  refine ⟨fun i q n hq => ?_, fun i hi q n hq hdead => ?_⟩
  · rcases hq.place.apart hp hf hq.lt hj with ⟨rfl, rfl, rfl⟩ | hapart
    · obtain ⟨rfl, hA⟩ := hsafe hq.normal
      obtain ⟨-, hall⟩ := h.normal hj hp hk.normal
      refine .inr ⟨hA, hk.state, fun a ha hb hne => ?_⟩
      rw [hk.same a hne]
      exact hall a ha hb
    · have hsame : ∀ a, q ≤ a → a < q + n → f' a = f a := fun a ha hb => hk.same a (by omega)
      have hlt := (hf.bounds hq.lt hq.place).2.2.hdr_lt
      have h8 := itemHdrSize_ge c
      rcases h.live i q n hq with hall | ⟨hA, hst, hall⟩
      · exact .inl fun a ha hb => (hsame a ha hb).trans (hall a ha hb)
      · refine .inr ⟨hA, ?_, fun a ha hb hne => (hsame a ha hb).trans (hall a ha hb hne)⟩
        rw [hsame _ (by omega) (by omega)]
        exact hst
  · by_cases hq' : q + 1 = off + 1
    · rw [hq', hk.state]
      decide
    · rw [hk.same _ hq']
      exact h.dead i hi q n hq hdead

/-- What `kv_item_del` looks for. -/
theorem kvOriginMatches_looksLike {item : KvItem} (h : kvOriginMatches c f item = true) (stop : ℕ) :
    LooksLike c f item.hdr.originOff stop (itemKey c f item) := by
  have hm : (readItemHdr c f item.hdr.originOff).magic = itemMagicNum ∧
      (readItemHdr c f item.hdr.originOff).state = itemStateNormal ∧
      (readItemHdr c f item.hdr.originOff).keyLen = item.hdr.keyLen ∧
      readBytes f (item.hdr.originOff + itemHdrSize c) (readItemHdr c f item.hdr.originOff).keyLen =
        readBytes f (item.pos + itemHdrSize c) (readItemHdr c f item.hdr.originOff).keyLen :=
    of_decide_eq_true h
  obtain ⟨hmagic, hstate, hlen, hkey⟩ := hm
  rw [hlen] at hkey
  have hklen : (itemKey c f item).length = item.hdr.keyLen := length_readBytes _ _ _
  refine ⟨hmagic, hstate, hlen.trans hklen.symm, fun k hk _ => ?_⟩
  unfold itemKey
  rw [← hkey, getD_readBytes _ _ _ _ _ (by omega)]

/-- An entry that is as it was shows the same item and key. -/
theorem itemAt_same (hdr : HdrAt c f₀ pos n) (hall : ∀ a, pos ≤ a → a < pos + n → f a = f₀ a) :
    itemAt c f pos = itemAt c f₀ pos ∧ itemKey c f (itemAt c f pos) = itemKey c f₀ (itemAt c f₀ pos) := by
  have hhdr := hdr.readItemHdr_same hall
  have hsize := hdr.size_spec.1
  have hitem : itemAt c f pos = itemAt c f₀ pos := by
    unfold itemAt
    rw [hhdr]
  refine ⟨hitem, ?_⟩
  rw [hitem]
  refine readBytes_congr fun k hk => hall _ ?_ ?_
  · change pos ≤ pos + itemHdrSize c + k
    omega
  · change k < (readItemHdr c f₀ pos).keyLen at hk
    change pos + itemHdrSize c + k < _
    omega

/-- What looks like an item still looked like it before. -/
theorem KilledIn.looksLike {key : List UInt8} (h : KilledIn c ns A f₀ f) (hf : FlashLaid c ns f₀)
    (hp : NormalAt c ns f₀ j p m) (hdvd : 4 ∣ off) (hlo : p ≤ off) (hhi : off < p + m)
    (hlook : LooksLike c f off (p + m) key) : LooksLike c f₀ off (p + m) key := by
  obtain ⟨hdvdp, hdvdm⟩ := hp.place.dvd (hf.blockOf hp.lt hp.place)
  have hbytes : ∀ a, off ≤ a → a < p + m → f a = f₀ a := by
    rcases h.live j p m hp with hall | ⟨-, hst, hall⟩
    · exact fun a ha hb => hall a (by omega) hb
    · -- the item is deleted, so the offset is not its own place
      have hne : off ≠ p := by
        rintro rfl
        have hnormal := hlook.normal
        rw [hst] at hnormal
        exact absurd hnormal (by decide)
      exact fun a ha hb => hall a (by omega) hb (by omega)
  refine ⟨?_, ?_, ?_, fun k hk hstop => ?_⟩
  · rw [← hbytes off (le_refl _) hhi]
    exact hlook.magic
  · rw [← hbytes (off + 1) (by omega) (by omega)]
    exact hlook.normal
  · rw [← hbytes (off + 3) (by omega) (by omega)]
    exact hlook.keyLen
  · rw [← hbytes _ (by omega) hstop]
    exact hlook.keyBytes k hk hstop

/-- **Recovery of one item.** -/
theorem KilledIn.recover (h : KilledIn c ns A f₀ s.flash) (hE : Content c ns f₀ E) (hf : FlashLaid c ns f₀)
    (hsafe : RecoverySafe c ns A f₀) (hl : LaidOut c k ns s) (hi : i < k) (hns : ns i = done ++ n :: rest)
    (hnormal : s.flash (blkFirst c i + done.sum + 1) = itemStateNormal) :
    KilledIn c ns A f₀ (itemRecoveryCb c s (itemAt c s.flash (blkFirst c i + done.sum))).2.2.flash := by
  have hin := lt_of_lt_of_le hi hl.le
  have hplace : PlaceOf c ns i (blkFirst c i + done.sum) n := ⟨done, rest, hns, rfl⟩
  generalize hpos : blkFirst c i + done.sum = pos at *
  obtain ⟨hnormal₀, hall⟩ := h.normal hin hplace hnormal
  have hdr₀ := (hf.bounds hin hplace).2.2
  have hdr := (hl.flashLaid.bounds hin hplace).2.2
  obtain ⟨hitem, hkey⟩ := itemAt_same hdr₀ hall
  -- the entry that the item is has the right checksum
  obtain ⟨key, val, he⟩ := hE.sound i hin pos n hplace hnormal₀.normal
  obtain ⟨-, -, -, -, hentry₀⟩ := (hE.live _ _ _).2 he
  have hentry := hentry₀.congr hdr₀ hall
  have hbytes : readBytes s.flash (pos + itemHdrSize c) (itemAt c s.flash pos).len = key ++ val :=
    hentry.foundItem.2.2
  have hcrc : (itemAt c s.flash pos).hdr.crc = calcCrc8 (key ++ val) := hentry.crc
  unfold itemRecoveryCb
  dsimp only
  rw [show (itemAt c s.flash pos).pos = pos from rfl, hbytes, if_pos hcrc]
  split
  case isFalse => exact h
  case isTrue hstale =>
    unfold kvItemDel
    dsimp only
    split
    case isFalse => exact h
    case isTrue hmatch =>
      have hlook := fun stop => kvOriginMatches_looksLike hmatch stop
      have hdvd : 4 ∣ (itemAt c s.flash pos).hdr.originOff := hdr.origin_dvd
      have hlt : (itemAt c s.flash pos).hdr.originOff < c.blkNums * c.blkSize := hdr.origin_lt
      generalize hoff : (itemAt c s.flash pos).hdr.originOff = off at *
      obtain ⟨j, hj, hb, hlo, hhi⟩ := hl.blockAt hlt (hlook 0).magic
      obtain ⟨hfirst, hstop⟩ := hb.kill_in hdvd (hlook 0).magic hlo hhi
      have hrow : off < blkFirst c j + (ns j).sum := by
        by_contra hge
        have hff := hb.rest off (not_lt.1 hge) hhi
        rw [(hlook 0).magic] at hff
        exact absurd hff (by decide)
      obtain ⟨done', m, rest', hns', hlo', hhi'⟩ := hb.laid.find hfirst hrow
      have hplace' : PlaceOf c ns j (blkFirst c j + done'.sum) m := ⟨done', rest', hns', rfl⟩
      have hkill := h.kill hf (killed_stateSet hdvd (hlook 0).magic (hlook 0).normal) hj hplace' hlo' hhi'
        fun hnormal' => ?_
      · exact hkill.same hf (itemsSame_kill c s off)
      · have hp' : NormalAt c ns f₀ j (blkFirst c j + done'.sum) m := ⟨hj, hplace', hnormal'⟩
        have hlook₀ := h.looksLike hf hp' hdvd hlo' hhi' (hlook _)
        rw [hkey] at hlook₀
        rw [hitem] at hoff
        have hstale₀ : Stale (itemAt c f₀ pos) := by
          rw [← hitem]
          unfold Stale
          rw [hitem, hoff]
          exact hstale
        have hallowed := hsafe i pos n hnormal₀ hstale₀ j _ m hp'
        rw [hoff] at hallowed
        exact hallowed hlo' hhi' hlook₀

/-- Recovery of all blocks. -/
theorem initKeeps_killedIn (hE : Content c ns f₀ E) (hf : FlashLaid c ns f₀) (hsafe : RecoverySafe c ns A f₀) :
    InitKeeps c ns fun _ f => KilledIn c ns A f₀ f ∧ MarksKept c f₀ f := by
  refine ⟨fun h hsame hmarks => ⟨h.1.same hf hsame, h.2.trans hmarks⟩,
    fun _ _ h _ => h, fun hl hi hns h hnormal => ⟨h.1.recover hE hf hsafe hl hi hns hnormal, ?_⟩, fun _ h => h⟩
  have hdeletes : KvCallback.Deletes .recovery := trivial
  obtain ⟨-, hkept⟩ := hl.callback hi hns hnormal hdeletes
  exact h.2.trans hkept.marks

/-- **The entries that are left.** -/
theorem KilledIn.content (h : KilledIn c ns A f₀ f) (hE : Content c ns f₀ E) (hf : FlashLaid c ns f₀)
    (hf' : FlashLaid c ns f) :
    Content c ns f fun pos key val => E pos key val ∧ f (pos + 1) = itemStateNormal := by
  constructor
  · intro pos key val
    rw [← hE.live]
    constructor
    · rintro ⟨i, hi, n, hp, he⟩
      obtain ⟨-, hall⟩ := h.normal hi hp he.normal
      exact ⟨⟨i, hi, n, hp, he.congr (hf'.bounds hi hp).2.2 fun a ha hb => (hall a ha hb).symm⟩, he.normal⟩
    · rintro ⟨⟨i, hi, n, hp, he⟩, hnormal⟩
      obtain ⟨-, hall⟩ := h.normal hi hp hnormal
      exact ⟨i, hi, n, hp, he.congr (hf.bounds hi hp).2.2 hall⟩
  · intro i hi pos n hp hnormal
    obtain ⟨hnormal₀, -⟩ := h.normal hi hp hnormal
    obtain ⟨key, val, he⟩ := hE.sound i hi pos n hp hnormal₀.normal
    exact ⟨key, val, he, hnormal⟩

/-- Nothing is deleted. -/
theorem KilledIn.content_same (h : KilledIn c ns (fun _ => False) f₀ f) (hE : Content c ns f₀ E)
    (hf : FlashLaid c ns f₀) (hf' : FlashLaid c ns f) : Content c ns f E := by
  refine (h.content hE hf hf').congr fun pos key val => ⟨And.left, fun he => ⟨he, ?_⟩⟩
  obtain ⟨i, hi, n, hp, hentry⟩ := (hE.live _ _ _).2 he
  have hlt := (hf.bounds hi hp).2.2.hdr_lt
  have h8 := itemHdrSize_ge c
  rcases h.live i pos n ⟨hi, hp, hentry.normal⟩ with hall | ⟨hfalse, -⟩
  · rw [hall _ (by omega) (by omega)]
    exact hentry.normal
  · exact hfalse.elim

end Killed

end GenieSdk.Analysis.Kv
