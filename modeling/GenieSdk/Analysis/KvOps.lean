import GenieSdk.Analysis.KvCollect

/-!
# The calls and the layout

Every call takes a layout to a layout, with lawful writes only, if no key is empty.
-/

set_option autoImplicit false

namespace GenieSdk.Analysis.Kv

open GenieSdk.Lib
open GenieSdk.Model

section Calls

variable {c : KvConf} {ns : ℕ → List ℕ} {s s' t : KvMgr} {key val : List UInt8} {res : KvRes}

/-- An offset in the partition is a `kv_size_t`. -/
theorem lt_kvSize {off : ℕ} (h : off < c.blkNums * c.blkSize) : off < 256 ^ kvSizeBytes c := by
  have htotal : c.blkNums * c.blkSize < 2 ^ 32 := c.total
  unfold kvSizeBytes
  split
  case isTrue => omega
  case isFalse hsmall => omega

/-- What was found is still there, and can be deleted. -/
theorem Layout.deleteFound {k i pos n : ℕ} {ns' : ℕ → List ℕ} (h : LaidOut c k ns s) (hi : i < k)
    (hp : PlaceOf c ns i pos n) (hkey : KeyAt c s.flash pos key) (h' : Layout c ns' s')
    (hsame : ∀ a, pos ≤ a → a < pos + n → s'.flash a = s.flash a) :
    Layout c ns' (kvItemKill c s' pos) ∧ Kept c s' (kvItemKill c s' pos) := by
  have hb := h.block i hi
  obtain ⟨done, rest, hns, rfl⟩ := hp
  obtain ⟨hlt, hdvd⟩ := h.itemAt_lt hi hns
  rw [hns] at hb
  have hdr := hb.hdrAt
  have hlt' := hdr.hdr_lt
  have h8 : 8 ≤ itemHdrSize c := by
    obtain h | h := itemHdrSize_cases c <;> omega
  have hmagic : s'.flash (blkFirst c i + done.sum) = itemMagicNum := by
    rw [hsame _ (le_refl _) (by omega), hdr.magic]
  have hnormal : s'.flash (blkFirst c i + done.sum + 1) = itemStateNormal := by
    rw [hsame _ (by omega) (by omega), hkey.normal]
  obtain ⟨hl, hk⟩ := h'.laid.kill hlt hdvd hmagic hnormal
  exact ⟨h'.kept hl hk, hk⟩

/-- A waiting set counts itself. -/
theorem Layout.lookup (h : Layout c ns s) (key : List UInt8) : Layout c ns (kvSetLookup c s key).2 ∧
    Kept c s (kvSetLookup c s key).2 ∧ ItemsSame c s.flash (kvSetLookup c s key).2.flash ∧
    FoundAll c ns s.flash key (List.range c.blkNums) (kvSetLookup c s key).1 := by
  unfold kvSetLookup
  split
  · let w : KvMgr := { s with gcWaiter := (s.gcWaiter + 1) % 256 }
    have hw : Layout c ns w := h.of_eq rfl rfl rfl
    have hk : Kept c s w := ⟨obeys_of_eq rfl rfl, onlyDirtied_of_eq rfl fun _ => rfl, fun _ => rfl, rfl, rfl,
      .refl c _⟩
    obtain ⟨hl, hk', hsame, hfound⟩ := hw.get key
    exact ⟨hl, hk.trans hk', hsame, hfound⟩
  · exact h.get key

/-- An update that is none, or a store with a deletion behind it. -/
theorem kvItemUpdate_cases {item : KvItem} (h : kvItemUpdate c s item key val = some (res, s')) :
    (res = .ok ∧ s' = s ∧ HasVal item val) ∨
      ¬ HasVal item val ∧ ∃ res' t, kvItemStore c s key val item.pos = some (res', t) ∧
        (res' = .ok ∧ res = .ok ∧ s' = kvItemKill c t item.pos ∨ res' ≠ .ok ∧ res = res' ∧ s' = t) := by
  unfold kvItemUpdate at h
  split at h
  case isTrue hval =>
    obtain ⟨rfl, rfl⟩ := Prod.mk.inj (Option.some.inj h)
    exact .inl ⟨rfl, rfl, hval⟩
  case isFalse hval =>
    refine .inr ⟨hval, ?_⟩
    cases hstore : kvItemStore c s key val item.pos with
    | none => simp [hstore] at h
    | some r =>
      obtain ⟨res', t⟩ := r
      simp only [hstore] at h
      by_cases hok : res' = .ok
      · subst hok
        obtain ⟨rfl, rfl⟩ := Prod.mk.inj (Option.some.inj h)
        exact ⟨_, _, rfl, .inl ⟨rfl, rfl, rfl⟩⟩
      · refine ⟨_, _, rfl, .inr ⟨hok, ?_⟩⟩
        cases res' with
        | ok => exact absurd rfl hok
        | cont =>
          obtain ⟨rfl, rfl⟩ := Prod.mk.inj (Option.some.inj h)
          exact ⟨rfl, rfl⟩
        | noSpace =>
          obtain ⟨rfl, rfl⟩ := Prod.mk.inj (Option.some.inj h)
          exact ⟨rfl, rfl⟩
        | invalidParam =>
          obtain ⟨rfl, rfl⟩ := Prod.mk.inj (Option.some.inj h)
          exact ⟨rfl, rfl⟩
        | itemNotFound =>
          obtain ⟨rfl, rfl⟩ := Prod.mk.inj (Option.some.inj h)
          exact ⟨rfl, rfl⟩

/-- A set whose old item is at `origin`, or that finds none. -/
theorem KvEntry.passes_of {origin : ℕ}
    (hparam : ¬ (val.length = 0 ∨ itemMaxKeyLen < key.length ∨ itemMaxValLen < val.length))
    (horg : origin < c.blkNums * c.blkSize) :
    (⟨key, val, origin⟩ : KvEntry).Passes c :=
  ⟨not_lt.1 fun h => hparam (.inr (.inl h)), Nat.pos_of_ne_zero fun h => hparam (.inl h),
    not_lt.1 fun h => hparam (.inr (.inr h)), lt_kvSize horg⟩

/-- An item is where it was, whatever is stored behind the last one of a block. -/
theorem Stored.same {e : KvEntry} {w i pos n : ℕ} (h : Stored c ns s e w s') (hl : Layout c ns s)
    (hi : i < c.blkNums) (hp : PlaceOf c ns i pos n) :
    ∀ a, pos ≤ a → a < pos + n → s'.flash a = s.flash a := by
  intro a ha hb
  obtain ⟨t, -, hsame, hflash⟩ := h.write
  have hb' := hl.laid.block i hi
  obtain ⟨hlo, hhi, -⟩ := hp.bounds hb'
  have hwrows := h.layout.laid.block w h.lt
  rw [Function.update_self] at hwrows
  have hwfits := hwrows.fits
  rw [List.sum_append, List.sum_singleton] at hwfits
  rw [hflash, writeBytes_outside]
  · exact hsame i hi a (by omega) (by omega)
  · -- the new item lies behind the old one, or in another block
    rw [length_entryBytes]
    by_cases hiw : i = w
    · subst hiw
      obtain ⟨done, rest, hns, rfl⟩ := hp
      have hsum := congrArg List.sum hns
      rw [List.sum_append, List.sum_cons] at hsum
      omega
    · have hapart := blkStop_le hiw (c := c)
      have hfi : i * c.blkSize + 4 = blkFirst c i := rfl
      have hfw : w * c.blkSize + 4 = blkFirst c w := rfl
      omega

/-- The item as an entry. -/
theorem Stored.content {e : KvEntry} {w : ℕ} {E : Entries} (h : Stored c ns s e w s') (hl : Layout c ns s)
    (he : e.Passes c) (hE : Content c ns s.flash E) :
    Content c (Function.update ns w (ns w ++ [e.size c])) s'.flash fun pos k v =>
      E pos k v ∨ pos = blkFirst c w + (ns w).sum ∧ k = e.key ∧ v = e.val := by
  obtain ⟨t, ht, hsame, hflash⟩ := h.write
  have hstands : Stands s'.flash (blkFirst c w + (ns w).sum) (e.bytes c) := by
    rw [hflash]
    exact stands_write
  have hlen := length_entryBytes c e
  refine (hE.same hl.laid.flashLaid ht.laid.flashLaid hsame).append ht.laid.flashLaid h.layout.laid.flashLaid h.lt
    (n := e.size c) (Function.update_self _ _ _) (fun j hj => Function.update_of_ne hj _ _) rfl
    (entryAt_stored he hstands) fun a ha => ?_
  rw [hflash]
  exact writeBytes_outside _ _ _ _ (by omega)

/-- **a new key.** -/
theorem Stored.holds_new {e : KvEntry} {w : ℕ} {m : KvMap} (h : Stored c ns s e w s') (hl : Layout c ns s)
    (he : e.Passes c) (hfound : FoundAll c ns s.flash e.key (List.range c.blkNums) none)
    (hm : Holds c ns s.flash m) :
    Holds c (Function.update ns w (ns w ++ [e.size c])) s'.flash (Function.update m e.key (some e.val)) := by
  obtain ⟨E, hE, hd, hr⟩ := hm
  rcases hfound.entry hE with ⟨-, hnew⟩ | ⟨_, _, _, _, _, hsome, -⟩
  · exact ⟨_, h.content hl he hE, represents_add _ _ hd hr hnew⟩
  · cases hsome

/-- **another value**, with the old item deleted. -/
theorem Stored.holds_update {e : KvEntry} {w i pos n : ℕ} {m : KvMap} (h : Stored c ns s e w s')
    (hl : Layout c ns s) (he : e.Passes c) (hi : i < c.blkNums) (hp : PlaceOf c ns i pos n)
    (hkey : KeyAt c s.flash pos e.key) (hm : Holds c ns s.flash m) :
    Holds c (Function.update ns w (ns w ++ [e.size c])) (kvItemKill c s' pos).flash
      (Function.update m e.key (some e.val)) := by
  obtain ⟨E, hE, hd, hr⟩ := hm
  have hbounds := hp.bounds (hl.laid.block i hi)
  have h8 := itemHdrSize_ge c
  have hlt := hbounds.2.2.hdr_lt
  -- the old entry, which has the key
  obtain ⟨key, val, hold⟩ := hE.sound i hi pos n hp hkey.normal
  obtain ⟨-, -, -, -, hentry⟩ := (hE.live _ _ _).2 hold
  obtain rfl := hentry.key_eq hkey
  have hcontent := h.content hl he hE
  have hplace : PlaceOf c (Function.update ns w (ns w ++ [e.size c])) i pos n := by
    by_cases hiw : i = w
    · subst hiw
      exact (placeOf_append (Function.update_self _ _ _)).2 (.inl hp)
    · exact (placeOf_congr (Function.update_of_ne hiw _ _)).2 hp
  have hne : blkFirst c w + (ns w).sum ≠ pos := by
    rintro rfl
    have hstop := h.layout.laid.block w h.lt
    rw [Function.update_self] at hstop
    have hfits := hstop.fits
    rw [List.sum_append] at hfits
    obtain rfl : w = i := (div_blkSize (Nat.le_add_right _ _) (by omega)).symm.trans
      (div_blkSize hbounds.1 (by omega))
    exact absurd (hp.lt_sum (hl.laid.block w hi)) (lt_irrefl _)
  have hnormal : s'.flash (pos + 1) = itemStateNormal := by
    rw [h.same hl hi hp _ (by omega) (by omega)]
    exact hkey.normal
  obtain ⟨hd', hnew, hr'⟩ := represents_remove hd hr hold fun k v hk => (hE.unique hk hold).1
  obtain ⟨hd'', hr''⟩ := represents_add (blkFirst c w + (ns w).sum) e.val hd' hr' hnew
  rw [Function.update_idem] at hr''
  refine ⟨_, (hcontent.delete h.layout.laid hi hplace hnormal).congr fun p k v => ?_, hd'', hr''⟩
  constructor
  · rintro ⟨hE' | hnew, hpos⟩
    · exact .inl ⟨hE', hpos⟩
    · exact .inr hnew
  · rintro (⟨hE', hpos⟩ | hnew)
    · exact ⟨.inl hE', hpos⟩
    · exact ⟨.inr hnew, by rw [hnew.1]; exact hne⟩

/-- The value that the key has already. -/
theorem Holds.update_self {i pos n : ℕ} {m : KvMap} (hm : Holds c ns s.flash m) (hi : i < c.blkNums)
    (hp : PlaceOf c ns i pos n) (hkey : KeyAt c s.flash pos key) (hval : HasVal (foundItem c s.flash pos) val) :
    Function.update m key (some val) = m := by
  obtain ⟨E, hE, -, hr⟩ := hm
  obtain ⟨key', val', hold⟩ := hE.sound i hi pos n hp hkey.normal
  obtain ⟨-, -, -, -, hentry⟩ := (hE.live _ _ _).2 hold
  obtain rfl := hentry.key_eq hkey
  obtain ⟨hklen, -, hstore⟩ := hentry.foundItem
  have hdrop := hval.2
  rw [hstore, hklen, List.drop_left] at hdrop
  subst hdrop
  rw [← (hr key' val').2 ⟨pos, hold⟩, Function.update_eq_self]

/-- **A set.** -/
theorem Layout.set (h : Layout c ns s) (hkey : key ≠ []) (hset : aosKvSet c s key val = some (res, s')) :
    ∃ ns', Layout c ns' s' ∧ Obeys c s s' ∧
      ∀ m, Holds c ns s.flash m → ∃ m', MapStep m (.set key val) (.status res) m' ∧
        Holds c ns' s'.flash m' := by
  rw [aosKvSet_eq] at hset
  split at hset
  case isTrue =>
    obtain ⟨rfl, rfl⟩ := Prod.mk.inj (Option.some.inj hset)
    exact ⟨ns, h, .refl c s, fun m hm => ⟨m, .setFails (by decide), hm⟩⟩
  case isFalse hparam =>
    obtain ⟨hl, hk, hsame, hfound⟩ := h.lookup key
    have hzero : 0 < c.blkNums * c.blkSize := by
      obtain ⟨w, hw, -⟩ := h.write
      exact Nat.mul_pos (by omega) (lt_of_lt_of_le (by norm_num) (blkSize_ge c))
    cases hr : kvSetLookup c s key with
    | mk found t =>
    rw [hr] at hl hk hsame hfound
    simp only [hr] at hset
    have hholds : ∀ {m : KvMap}, Holds c ns s.flash m → Holds c ns t.flash m :=
      fun hm => hm.same h.laid.flashLaid hl.laid.flashLaid hsame
    cases found with
    | none =>
      have hpasses := KvEntry.passes_of hparam hzero
      have hnone : FoundAll c ns t.flash key (List.range c.blkNums) none :=
        fun i hi => FoundIn.congr hl.laid (List.mem_range.1 hi) hsame.symm (hfound i hi)
      obtain ⟨ho, hcases⟩ := hl.store (e := ⟨key, val, 0⟩) hpasses hkey hzero (dvd_zero 4) hset
      rcases hcases with ⟨rfl, hl', rfl⟩ | ⟨rfl, w, hstored⟩
      · refine ⟨_, hl', hk.obeys.trans ho, fun m hm => ⟨m, .setFails (by decide), ?_⟩⟩
        rw [hl.trigger.2.2]
        exact hholds hm
      · exact ⟨_, hstored.layout, hk.obeys.trans ho, fun m hm =>
          ⟨_, .set, hstored.holds_new hl hpasses hnone (hholds hm)⟩⟩
    | some item =>
      obtain ⟨i, hi, pos, n, hp, hkeyAt, rfl⟩ := hfound
      have hplace := hp
      obtain ⟨done, rest, hns, hpos⟩ := hplace
      obtain ⟨hlt, hdvd⟩ := h.laid.itemAt_lt hi hns
      rw [← hpos] at hlt hdvd
      have hdr := (hp.bounds (h.laid.block i hi)).2.2
      have hbytes := hp.same (h.laid.block i hi) hi hsame
      have hkeyAt' : KeyAt c t.flash pos key :=
        hkeyAt.congr hdr hbytes
      rcases kvItemUpdate_cases hset with ⟨rfl, rfl, hval⟩ | ⟨-, res', u, hstore, hend⟩
      · refine ⟨ns, hl, hk.obeys, fun m hm => ⟨_, .set, ?_⟩⟩
        rw [hm.update_self hi hp hkeyAt hval]
        exact hholds hm
      · have hpasses := KvEntry.passes_of hparam hlt
        obtain ⟨ho, hcases⟩ := hl.store (e := ⟨key, val, pos⟩) hpasses hkey hlt hdvd hstore
        rcases hcases with ⟨rfl, hl', rfl⟩ | ⟨rfl, w, hstored⟩
        · rcases hend with ⟨hok, -⟩ | ⟨-, rfl, rfl⟩
          · cases hok
          · refine ⟨_, hl', hk.obeys.trans ho, fun m hm => ⟨m, .setFails (by decide), ?_⟩⟩
            rw [hl.trigger.2.2]
            exact hholds hm
        · rcases hend with ⟨-, rfl, rfl⟩ | ⟨hok, -⟩
          swap
          · exact absurd rfl hok
          obtain ⟨hl'', hk'⟩ := Layout.deleteFound hl.laid hi hp hkeyAt' hstored.layout
            (hstored.same hl hi hp)
          exact ⟨_, hl'', (hk.obeys.trans ho).trans hk'.obeys, fun m hm =>
            ⟨_, .set, hstored.holds_update hl hpasses hi hp hkeyAt' (hholds hm)⟩⟩

/-- **a search** says what the value of the key is. -/
theorem Layout.get_map {m : KvMap} (h : Layout c ns s) (hm : Holds c ns s.flash m) (key : List UInt8) :
    (kvItemGet c s key).1 = none ∧ m key = none ∨ ∃ item val, (kvItemGet c s key).1 = some item ∧
      m key = some val ∧ item.hdr.keyLen = key.length ∧ item.hdr.valLen = val.length ∧
      item.store = key ++ val := by
  obtain ⟨-, -, -, hfound⟩ := h.get key
  obtain ⟨E, hE, -, hr⟩ := hm
  rcases hfound.entry hE with ⟨hnone, hnew⟩ | ⟨i, -, pos, n, val, hsome, -, hentry, he⟩
  · refine .inl ⟨hnone, Option.eq_none_iff_forall_ne_some.2 fun val hval => ?_⟩
    obtain ⟨pos, he⟩ := (hr key val).1 hval
    exact hnew pos val he
  · exact .inr ⟨_, val, hsome, (hr key val).2 ⟨pos, he⟩, hentry.foundItem⟩

/-- **What is found is the map.** -/
theorem Layout.kvMap_eq {m : KvMap} (h : Layout c ns s) (hm : Holds c ns s.flash m) : kvMap c s = m := by
  funext key
  unfold kvMap
  rcases h.get_map hm key with ⟨hnone, hkey⟩ | ⟨item, val, hsome, hkey, hklen, hvlen, hstore⟩
  · rw [hnone, hkey]
    rfl
  · rw [hsome, hkey, Option.map_some, hstore, hklen, hvlen, List.drop_left, List.take_length]

/-- A get changes nothing that the search did not change. -/
theorem aosKvGet_snd (c : KvConf) (s : KvMgr) (key : List UInt8) (bufferLen : ℕ) :
    (aosKvGet c s key bufferLen).2 = s ∨ (aosKvGet c s key bufferLen).2 = (kvItemGet c s key).2 := by
  unfold aosKvGet
  split
  · exact .inl rfl
  · cases kvItemGet c s key with
    | mk found t =>
    cases found with
    | none => exact .inr rfl
    | some item =>
      dsimp only
      split
      · exact .inr rfl
      · exact .inr rfl

/-- The reply of a get. -/
theorem kvCall_get (c : KvConf) (s : KvMgr) (key : List UInt8) (bufferLen : ℕ) :
    kvCall c s (.get key bufferLen) = some (.value (aosKvGet c s key bufferLen).1.1
      (aosKvGet c s key bufferLen).1.2.1 (aosKvGet c s key bufferLen).1.2.2,
      (aosKvGet c s key bufferLen).2) := rfl

/-- A get replies with the value of the map. -/
theorem Layout.aosKvGet_fst {m : KvMap} (h : Layout c ns s) (hm : Holds c ns s.flash m) (key : List UInt8)
    (bufferLen : ℕ) : KvReply.value (aosKvGet c s key bufferLen).1.1 (aosKvGet c s key bufferLen).1.2.1
      (aosKvGet c s key bufferLen).1.2.2 = getReply m key bufferLen := by
  have hget := h.get_map hm key
  unfold aosKvGet getReply
  split
  case isTrue => rfl
  case isFalse =>
    cases hr : kvItemGet c s key with
    | mk found t =>
    rw [hr] at hget
    rcases hget with ⟨rfl, hkey⟩ | ⟨item, val, rfl, hkey, hklen, hvlen, hstore⟩
    · rw [hkey]
    · rw [hkey]
      dsimp only
      rw [hstore, hklen, hvlen, List.drop_left, List.take_length]
      split
      · rfl
      · rfl

/-- **A deletion.** -/
theorem Layout.del (h : Layout c ns s) (key : List UInt8) : Layout c ns (aosKvDel c s key).2 ∧
    Obeys c s (aosKvDel c s key).2 ∧ ∀ m, Holds c ns s.flash m →
      ∃ m', MapStep m (.del key) (.status (aosKvDel c s key).1) m' ∧ Holds c ns (aosKvDel c s key).2.flash m' := by
  obtain ⟨hl, hk, hsame, hfound⟩ := h.get key
  have hget := fun {m : KvMap} (hm : Holds c ns s.flash m) => h.get_map hm key
  unfold aosKvDel
  cases hr : kvItemGet c s key with
  | mk found t =>
  rw [hr] at hl hk hsame hfound hget
  cases found with
  | none =>
    refine ⟨hl, hk.obeys, fun m hm => ⟨m, .delNone ?_, hm.same h.laid.flashLaid hl.laid.flashLaid hsame⟩⟩
    rcases hget hm with ⟨-, hkey⟩ | ⟨item, val, hsome, -⟩
    · exact hkey
    · cases hsome
  | some item =>
    have hfound' := hfound
    obtain ⟨i, hi, pos, n, hp, hkeyAt, rfl⟩ := hfound'
    have hbytes := hp.same (h.laid.block i hi) hi hsame
    obtain ⟨hl', hk'⟩ := Layout.deleteFound h.laid hi hp hkeyAt hl hbytes
    refine ⟨hl', hk.obeys.trans hk'.obeys, fun m hm => ?_⟩
    rcases hget hm with ⟨hnone, -⟩ | ⟨-, val, -, hkey, -⟩
    · cases hnone
    refine ⟨_, .del hkey, ?_⟩
    obtain ⟨E, hE, hd, hrep⟩ := hm
    obtain ⟨key', val', he⟩ := hE.sound i hi pos n hp hkeyAt.normal
    obtain ⟨-, -, -, -, hentry⟩ := (hE.live _ _ _).2 he
    obtain rfl := hentry.key_eq hkeyAt
    have h8 := itemHdrSize_ge c
    have hlt := (hp.bounds (h.laid.block i hi)).2.2.hdr_lt
    have hnormal : t.flash (pos + 1) = itemStateNormal := by
      rw [hbytes _ (by omega) (by omega)]
      exact hkeyAt.normal
    obtain ⟨hd', -, hrep'⟩ := represents_remove hd hrep he fun k v hv => (hE.unique hv he).1
    exact ⟨_, (hE.same h.laid.flashLaid hl.laid.flashLaid hsame).delete hl.laid hi hp hnormal, hd', hrep'⟩

/-- The calls that delete in all blocks. -/
theorem Layout.deleteAll (h : Layout c ns s) (cb : KvCallback) (hcb : cb.Deletes)
    (hcont : ∀ u item, (cb.func c u item).1 = .cont) {P : List UInt8 → Prop} [DecidablePred P]
    (hkeys : DeletesKeys c cb P) :
    let s' := (List.range c.blkNums).foldl (fun s i => (kvItemTraverse c (cb.func c) s i).2) s
    Layout c ns s' ∧ Obeys c s s' ∧ ∀ m, Holds c ns s.flash m →
      Holds c ns s'.flash fun key => if P key then none else m key := by
  intro s'
  obtain ⟨hl, hk⟩ := h.foldl cb hcb (List.range c.blkNums) fun i hi => List.mem_range.1 hi
  refine ⟨hl, hk.obeys, fun m hm => ?_⟩
  obtain ⟨E, hE, hd, hr⟩ := hm
  exact ⟨_, hE.deleteAll h hcb hcont hkeys, represents_filter hd hr P⟩

/-- **Every call** keeps a layout, if no key is empty, and does to the map what it should. -/
theorem Layout.call {op : KvOp} {r : KvReply} (h : Layout c ns s)
    (hop : ∀ key val, op = .set key val → key ≠ []) (hcall : kvCall c s op = some (r, s')) :
    ∃ ns', Layout c ns' s' ∧ Obeys c s s' ∧
      ∀ m, Holds c ns s.flash m → ∃ m', MapStep m op r m' ∧ Holds c ns' s'.flash m' := by
  cases op with
  | set key val =>
    obtain ⟨⟨res, t⟩, hset, heq⟩ := Option.map_eq_some_iff.1 hcall
    cases heq
    exact h.set (hop key val rfl) hset
  | get key bufferLen =>
    obtain ⟨hl, hk, hsame, -⟩ := h.get key
    have hreply := fun {m : KvMap} (hm : Holds c ns s.flash m) => h.aosKvGet_fst hm key bufferLen
    rw [kvCall_get] at hcall
    obtain ⟨rfl, rfl⟩ := Prod.mk.inj (Option.some.inj hcall)
    rcases aosKvGet_snd c s key bufferLen with heq | heq
    · rw [heq]
      refine ⟨ns, h, .refl c s, fun m hm => ⟨m, ?_, hm⟩⟩
      rw [hreply hm]
      exact .get
    · rw [heq]
      refine ⟨ns, hl, hk.obeys, fun m hm => ⟨m, ?_, hm.same h.laid.flashLaid hl.laid.flashLaid hsame⟩⟩
      rw [hreply hm]
      exact .get
  | del key =>
    cases hcall
    exact ⟨ns, h.del key⟩
  | delByPrefix keyPrefix =>
    cases hcall
    obtain ⟨hl, ho, hmap⟩ := h.deleteAll (.delByPrefix keyPrefix) trivial
      (itemDelByPrefixCb_cont keyPrefix) (deletesKeys_delByPrefix c keyPrefix)
    exact ⟨ns, hl, ho, fun m hm => ⟨_, .delByPrefix, hmap m hm⟩⟩
  | delAll exPrefix =>
    cases hcall
    obtain ⟨hl, ho, hmap⟩ := h.deleteAll (.delAll exPrefix) trivial
      (itemDelAllCb_cont exPrefix) (deletesKeys_delAll c exPrefix)
    simp only [ite_not] at hmap
    exact ⟨ns, hl, ho, fun m hm => ⟨_, .delAll, hmap m hm⟩⟩
  | gc =>
    cases hcall
    obtain ⟨ns', hl, ho, hmap⟩ := h.gcTask
    exact ⟨ns', hl, ho, fun m hm => ⟨m, .gc, hmap m hm⟩⟩

/-- A step is a call without its reply. -/
theorem kvStep_eq (c : KvConf) (s : KvMgr) (op : KvOp) : kvStep c s op = (kvCall c s op).map Prod.snd := by
  cases op with
  | set key val =>
    unfold kvStep kvCall
    rw [Option.map_map]
    rfl
  | get key bufferLen => rfl
  | del key => rfl
  | delByPrefix keyPrefix => rfl
  | delAll exPrefix => rfl
  | gc => rfl

/-- The layout alone. -/
theorem Layout.step {op : KvOp} (h : Layout c ns s) (hop : ∀ key val, op = .set key val → key ≠ [])
    (hstep : kvStep c s op = some s') : ∃ ns', Layout c ns' s' ∧ Obeys c s s' := by
  rw [kvStep_eq] at hstep
  obtain ⟨⟨r, t⟩, hcall, rfl⟩ := Option.map_eq_some_iff.1 hstep
  obtain ⟨ns', hl, ho, -⟩ := h.call hop hcall
  exact ⟨ns', hl, ho⟩

end Calls

end GenieSdk.Analysis.Kv
