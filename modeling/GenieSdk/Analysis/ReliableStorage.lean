import GenieSdk.Lib.Runs
import GenieSdk.Model.GenieStorage
import Mathlib.Data.Nat.Digits.Lemmas

/-!
# Reliable storage

A value that was written is read back as it was, whatever else is written in between
(`reliable_storage`). Sizes from 65521 on are rounded to 0 and refused, and the read needs a buffer of its
own: **without memory it fails** (`read_without_memory`).
-/

set_option autoImplicit false

namespace GenieSdk.Analysis.Storage

open GenieSdk.Lib
open GenieSdk.Model

/-- Decryption undoes encryption under the same key. -/
def AesInverts (c : Crypto) : Prop :=
  ∀ key block, key.length = 16 → block.length = 16 →
    (c.aesEncrypt key block).length = 16 ∧ c.aesDecrypt key (c.aesEncrypt key block) = some block

/-- The call writes to the key of the index. -/
def Writes (index : UInt16) : StorageAct → Prop
  | .writeReliable _ i _ => i = index
  | .writeUserdata _ i _ => i = index
  | .kvSet _ key _ => key = kvKey index.toNat
  | .kvDel key => key = kvKey index.toNat

section Keys

/-- The number that is printed. -/
theorem ofDigits_decimal (n : ℕ) :
    Nat.ofDigits 10 ((decimal n).reverse.map fun b => b.toNat - 48) = n := by
  unfold decimal
  split
  · next hzero =>
    rw [hzero]
    rfl
  · rw [← List.map_reverse, List.reverse_reverse, List.map_map]
    have hdigits : (Nat.digits 10 n).map ((fun b : UInt8 => b.toNat - 48) ∘ fun d =>
        UInt8.ofNat (48 + d)) = Nat.digits 10 n := by
      refine (List.map_congr_left fun d hd => ?_).trans (List.map_id _)
      have hlt : d < 10 := Nat.digits_lt_base (by norm_num) hd
      show (UInt8.ofNat (48 + d)).toNat - 48 = d
      rw [UInt8.toNat_ofNat', Nat.mod_eq_of_lt (by omega)]
      omega
    rw [hdigits, Nat.ofDigits_digits]

/-- Different numbers have different digits. -/
theorem decimal_injective : Function.Injective decimal := by
  intro n m h
  rw [← ofDigits_decimal n, h, ofDigits_decimal]

/-- An index of 16 bits has five digits at most. -/
theorem length_decimal_le {n : ℕ} (h : n < 2 ^ 16) : (decimal n).length ≤ 5 := by
  unfold decimal
  split
  · decide
  · rw [List.length_map, List.length_reverse, Nat.digits_length_le_iff (by norm_num)]
    exact h.trans (by norm_num)

/-- The ten bytes are enough: every index has a key of its own. -/
theorem kvKey_injective : Function.Injective fun index : UInt16 => kvKey index.toNat := by
  intro i j h
  have hkey : ∀ k : UInt16, kvKey k.toNat = [107, 101, 121, 95] ++ decimal k.toNat := by
    intro k
    have hlen := length_decimal_le k.toNat_lt
    refine List.take_of_length_le ?_
    rw [List.length_append]
    exact Nat.add_le_add_left hlen 4
  dsimp only at h
  rw [hkey i, hkey j] at h
  exact UInt16.toNat_inj.1 (decimal_injective (List.append_cancel_left h))

end Keys

section Blocks

variable {c : Crypto} {encKey : List UInt8} {m : Mem}

/-- The loop of the encryption. -/
theorem encrypt_blocks (haes : AesInverts c) (hkey : encKey.length = 16) (n : ℕ) :
    Rewritten m (genieStorageEncrypt c encKey m (16 * n))
      (fun i => c.aesEncrypt encKey (readBytes m (16 * i) 16)) 16 n := by
  unfold genieStorageEncrypt
  rw [Nat.mul_div_cancel_left n (by norm_num)]
  induction n with
  | zero => exact .zero m _ 16
  | succ n ih =>
    rw [List.range_succ, List.foldl_append, List.foldl_cons, List.foldl_nil, ih.next]
    exact ih.succ (haes encKey _ hkey (length_readBytes _ _ _)).1

/-- The loop of the decryption, for blocks that can be decrypted. -/
theorem decrypt_blocks {p : ℕ → List UInt8} (stack : List UInt8) (n : ℕ)
    (hdec : ∀ i < n, c.aesDecrypt encKey (readBytes m (16 * i) 16) = some (p i))
    (hlen : ∀ i < n, (p i).length = 16) :
    Rewritten m (genieStorageDecrypt c encKey stack m (16 * n)) p 16 n := by
  unfold genieStorageDecrypt
  rw [Nat.mul_div_cancel_left n (by norm_num)]
  induction n with
  | zero => exact .zero m _ 16
  | succ n ih =>
    have hrest := ih (fun i hi => hdec i (Nat.lt_succ_of_lt hi))
      fun i hi => hlen i (Nat.lt_succ_of_lt hi)
    rw [List.range_succ, List.foldl_append, List.foldl_cons, List.foldl_nil]
    dsimp only
    rw [hrest.next, hdec n (Nat.lt_succ_self n)]
    exact hrest.succ (hlen n (Nat.lt_succ_self n))

/-- **What is encrypted and copied is decrypted again.** -/
theorem decrypt_encrypt (haes : AesInverts c) (hkey : encKey.length = 16) (stack : List UInt8)
    (heap : Mem) (n : ℕ) :
    readBytes (genieStorageDecrypt c encKey stack (writeBytes heap 0
        (readBytes (genieStorageEncrypt c encKey m (16 * n)) 0 (16 * n))) (16 * n)) 0 (16 * n) =
      readBytes m 0 (16 * n) := by
  have henc := encrypt_blocks (m := m) haes hkey n
  have hcopy : ∀ i < n, readBytes (writeBytes heap 0
      (readBytes (genieStorageEncrypt c encKey m (16 * n)) 0 (16 * n))) (16 * i) 16 =
        c.aesEncrypt encKey (readBytes m (16 * i) 16) := by
    intro i hi
    rw [readBytes_copy _ _ (by omega)]
    exact henc.block i hi
  have hdec := decrypt_blocks (p := fun i => readBytes m (16 * i) 16) stack n
    (fun i hi => by
      rw [hcopy i hi]
      exact (haes encKey _ hkey (length_readBytes _ _ _)).2)
    fun _ _ => length_readBytes _ _ _
  exact readBytes_of_blocks hdec.block

end Blocks

section Store

variable {c : Crypto} {encKey : List UInt8} {env : StorageEnv} {s s' : GenieStore}

/-- What a set can do. -/
theorem kvSet_cases (s : GenieStore) (key val : List UInt8) (room : Bool) :
    ((s.kvSet key val room).1 = false ∧ (s.kvSet key val room).2 = s) ∨
      s.kvSet key val room = (true, { s with kv := Function.update s.kv key (some val) }) := by
  unfold GenieStore.kvSet
  split_ifs
  · exact Or.inl ⟨rfl, rfl⟩
  · exact Or.inr rfl
  · exact Or.inl ⟨rfl, rfl⟩

/-- A write stores its value under its key, or nothing. -/
theorem genieStorageWrite_cases (s : GenieStore) (index : ℕ) (val : List UInt8) (room : Bool) :
    ((genieStorageWrite s index val room).1 ≠ .success ∧
        (genieStorageWrite s index val room).2 = s) ∨
      genieStorageWrite s index val room =
        (.success, { s with kv := Function.update s.kv (kvKey index) (some val) }) := by
  unfold genieStorageWrite genieKvWrite
  split
  · exact Or.inl ⟨GenieStorageStatus.noConfusion, rfl⟩
  · obtain ⟨hret, hs⟩ | heq := kvSet_cases s (kvKey index) val room
    · refine Or.inl ?_
      generalize s.kvSet (kvKey index) val room = r at hret hs
      obtain ⟨ok, t⟩ := r
      subst hret hs
      exact ⟨GenieStorageStatus.noConfusion, rfl⟩
    · rw [heq]
      exact Or.inr rfl

/-- The bytes that are stored for some data. -/
def stored (c : Crypto) (encKey : List UInt8) (heap : Mem) (data : List UInt8) : List UInt8 :=
  let buffSize := genieStorageGetReliableSize data.length
  let buff := writeBytes (writeBytes heap 0 (List.replicate buffSize 0)) 0 data
  readBytes (genieStorageEncrypt c encKey buff buffSize) 0 buffSize

/-- A write is refused, changes the triple alone, or stores the data under its key. -/
theorem writeReliable_cases (c : Crypto) (encKey : List UInt8) (env : StorageEnv) (s : GenieStore)
    (index : ℕ) (data : List UInt8) :
    ((genieStorageWriteReliable c encKey env s index data).1 ≠ .success ∧
        (genieStorageWriteReliable c encKey env s index data).2 = s) ∨
      (index = gfiMeshTrituple ∧
        ∃ triples, (genieStorageWriteReliable c encKey env s index data).2 =
          { s with triples := triples }) ∨
      (index ≠ gfiMeshTrituple ∧ ∃ heap,
        env.halMalloc (genieStorageGetReliableSize data.length) = some heap ∧
          genieStorageWriteReliable c encKey env s index data = (.success,
            { s with
              kv := Function.update s.kv (kvKey index) (some (stored c encKey heap data)) })) := by
  unfold genieStorageWriteReliable
  dsimp only
  cases hmem : env.halMalloc (genieStorageGetReliableSize data.length) with
  | none => exact Or.inl ⟨GenieStorageStatus.noConfusion, rfl⟩
  | some heap =>
    dsimp only
    by_cases htri : index = gfiMeshTrituple
    · refine Or.inr (Or.inl ⟨htri, ?_⟩)
      rw [if_pos htri]
      exact ⟨_, rfl⟩
    · rw [if_neg htri]
      obtain hfail | heq := genieStorageWrite_cases s index (stored c encKey heap data) env.room
      · exact Or.inl hfail
      · exact Or.inr (Or.inr ⟨htri, heap, rfl, heq⟩)

/-- What is read depends on the triple or on the value under the key alone. -/
theorem readReliable_congr {index : ℕ} (htri : index = gfiMeshTrituple → s'.triples = s.triples)
    (hkv : index ≠ gfiMeshTrituple → s'.kv (kvKey index) = s.kv (kvKey index)) (dataSize : ℕ) :
    genieStorageReadReliable c encKey env s' index dataSize =
      genieStorageReadReliable c encKey env s index dataSize := by
  unfold genieStorageReadReliable genieStorageRead genieKvRead GenieStore.kvGet
  by_cases h : index = gfiMeshTrituple
  · simp only [h, if_true, htri h]
  · simp only [h, if_false, hkv h]

/-- **a call that does not write to the key** leaves the value under it. -/
theorem storageStep_kv {index : UInt16} {a : StorageAct} (hwrites : ¬ Writes index a)
    (hc : storageStep c encKey s a = some s') :
    s'.kv (kvKey index.toNat) = s.kv (kvKey index.toNat) := by
  have hother : ∀ i : UInt16, i ≠ index → kvKey index.toNat ≠ kvKey i.toNat := fun i hi h =>
    hi (kvKey_injective h).symm
  cases a with
  | writeReliable env i data =>
    cases hc
    obtain ⟨-, hs⟩ | ⟨-, triples, hs⟩ | ⟨-, heap, -, hs⟩ :=
      writeReliable_cases c encKey env s i.toNat data
    · rw [hs]
    · rw [hs]
    · rw [hs]
      exact Function.update_of_ne (hother i hwrites) _ _
  | writeUserdata env i data =>
    cases hc
    obtain ⟨-, hs⟩ | hs := genieStorageWrite_cases s i.toNat data env.room
    · rw [hs]
    · rw [hs]
      exact Function.update_of_ne (hother i hwrites) _ _
  | kvSet env key val =>
    cases hc
    obtain ⟨-, hs⟩ | hs := kvSet_cases s key val env.room
    · rw [hs]
    · rw [hs]
      exact Function.update_of_ne (Ne.symm hwrites) _ _
  | kvDel key =>
    cases hc
    exact Function.update_of_ne (Ne.symm hwrites) _ _

/-- A size that is not refused is a number of blocks that has room for the data. -/
theorem reliableSize_blocks {d : ℕ} (hd : d < 2 ^ 16)
    (hsize : genieStorageGetReliableSize d ≠ 0) :
    ∃ n, genieStorageGetReliableSize d = 16 * n ∧ d ≤ 16 * n := by
  unfold genieStorageGetReliableSize at *
  split_ifs at * with hmod
  · exact ⟨d / 16, by omega, by omega⟩
  · have hlt : (d / 16 + 1) * 16 < 2 ^ 16 := by
      by_contra hge
      have hfull : (d / 16 + 1) * 16 = 2 ^ 16 := by omega
      rw [hfull] at hsize
      exact hsize rfl
    exact ⟨d / 16 + 1, by rw [Nat.mod_eq_of_lt hlt]; ring, by omega⟩

/-- The value is found and decrypted. -/
theorem readReliable_stored (haes : AesInverts c) (hkey : encKey.length = 16) {index : ℕ}
    {data : List UInt8} {heap : Mem} (htri : index ≠ gfiMeshTrituple) (hlen : data.length < 2 ^ 16)
    (hsize : genieStorageGetReliableSize data.length ≠ 0)
    (hkv : s.kv (kvKey index) = some (stored c encKey heap data)) (hmem : env.heap ≠ none) :
    genieStorageReadReliable c encKey env s index data.length = .ok data := by
  obtain ⟨n, hn, hle⟩ := reliableSize_blocks hlen hsize
  obtain ⟨buff, hbuff⟩ := Option.ne_none_iff_exists'.1 hmem
  have hmalloc : env.halMalloc (16 * n) = some buff := by
    rw [← hn]
    exact (if_neg hsize).trans hbuff
  have hstored : (stored c encKey heap data).length = 16 * n := by
    unfold stored
    rw [length_readBytes, hn]
  have hread : genieStorageRead s index buff (16 * n) =
      (.success, writeBytes buff 0 (stored c encKey heap data)) := by
    have hne : 16 * n ≠ 0 := hn ▸ hsize
    simp only [genieStorageRead, genieKvRead, GenieStore.kvGet, hne, if_false, hkv, hstored,
      lt_irrefl]
  unfold genieStorageReadReliable
  dsimp only
  rw [hn, hmalloc]
  dsimp only
  rw [if_neg htri, hread]
  dsimp only
  rw [if_pos rfl, ← readBytes_take _ _ hle]
  unfold stored
  rw [hn, decrypt_encrypt haes hkey, readBytes_take _ _ hle, readBytes_writeBytes_same]

end Store

/-- **Reliable storage.** What was written and not overwritten is read back, given a buffer; writes to
different indices do not affect each other; and a write that fails leaves what was there. -/
theorem reliable_storage (c : Crypto) (encKey : List UInt8) (hkey : encKey.length = 16)
    (haes : AesInverts c) :
    (∀ (index : UInt16) (data : List UInt8) (env env' : StorageEnv) (s s₁ s₂ : GenieStore)
        (as : List StorageAct), index.toNat ≠ gfiMeshTrituple → 1 ≤ data.length →
        data.length < 2 ^ 16 →
        genieStorageWriteReliable c encKey env s index.toNat data = (.success, s₁) →
        (∀ a ∈ as, ¬ Writes index a) → runSteps (storageStep c encKey) s₁ as = some s₂ →
        env'.heap ≠ none →
        genieStorageReadReliable c encKey env' s₂ index.toNat data.length = .ok data) ∧
      (∀ (i j : UInt16) (data : List UInt8) (env env' : StorageEnv) (s : GenieStore) (dataSize : ℕ),
        i ≠ j → genieStorageReadReliable c encKey env'
            (genieStorageWriteReliable c encKey env s i.toNat data).2 j.toNat dataSize =
          genieStorageReadReliable c encKey env' s j.toNat dataSize) ∧
      ∀ (index : UInt16) (data : List UInt8) (env env' : StorageEnv) (s : GenieStore) (dataSize : ℕ),
        index.toNat ≠ gfiMeshTrituple →
        (genieStorageWriteReliable c encKey env s index.toNat data).1 ≠ .success →
        genieStorageReadReliable c encKey env'
            (genieStorageWriteReliable c encKey env s index.toNat data).2 index.toNat dataSize =
          genieStorageReadReliable c encKey env' s index.toNat dataSize := by
  refine ⟨?_, ?_, ?_⟩
  · intro index data env env' s s₁ s₂ as htri _ hlen hwrite hothers hrun hmem
    obtain ⟨hfail, -⟩ | ⟨h, -⟩ | ⟨-, heap, hmalloc, heq⟩ :=
      writeReliable_cases c encKey env s index.toNat data
    · rw [hwrite] at hfail
      exact absurd rfl hfail
    · exact absurd h htri
    · have hsize : genieStorageGetReliableSize data.length ≠ 0 := by
        intro hzero
        rw [StorageEnv.halMalloc, if_pos hzero] at hmalloc
        cases hmalloc
      obtain rfl : s₁ = _ := congrArg Prod.snd (hwrite.symm.trans heq)
      have hkv := runSteps_inv
        (I := fun t => t.kv (kvKey index.toNat) = some (stored c encKey heap data))
        (fun _ _ _ ht hw hc => (storageStep_kv hw hc).trans ht) (Function.update_self _ _ _)
        (stepsMeet_of_forall (fun a ha _ => hothers a ha) _) hrun
      exact readReliable_stored haes hkey htri hlen hsize hkv hmem
  · intro i j data env env' s dataSize hij
    have hkey' : kvKey j.toNat ≠ kvKey i.toNat := fun h => hij (kvKey_injective h).symm
    obtain ⟨-, hs⟩ | ⟨h, triples, hs⟩ | ⟨-, heap, -, hs⟩ :=
      writeReliable_cases c encKey env s i.toNat data
    · rw [hs]
    · rw [hs]
      refine readReliable_congr ?_ ?_ dataSize
      · exact fun h' => absurd (UInt16.toNat_inj.1 (h.trans h'.symm)) hij
      · exact fun _ => rfl
    · rw [hs]
      refine readReliable_congr ?_ ?_ dataSize
      · exact fun _ => rfl
      · exact fun _ => Function.update_of_ne hkey' _ _
  · intro index data env env' s dataSize htri hfail
    obtain ⟨-, hs⟩ | ⟨h, -⟩ | ⟨-, heap, -, hs⟩ :=
      writeReliable_cases c encKey env s index.toNat data
    · rw [hs]
    · exact absurd h htri
    · rw [hs] at hfail
      exact absurd rfl hfail

/-- A key, a block and what AES makes of it. -/
def sampleKey : List UInt8 := (List.range 16).map UInt8.ofNat

def sampleBlock : List UInt8 := (List.range 16).map fun i => UInt8.ofNat (0x11 * i)

def sampleCipher : List UInt8 :=
  [0x69, 0xc4, 0xe0, 0xd8, 0x6a, 0x7b, 0x04, 0x30, 0xd8, 0xcd, 0xb7, 0x80, 0x70, 0xb4, 0xc5, 0x5a]

/-- Two functions that undo each other and agree with AES on that block and that key. -/
def sampleAes : Crypto where
  sha256 := fun _ => []
  aesEncrypt := fun _ block =>
    List.zipWith (· ^^^ ·) block (List.zipWith (· ^^^ ·) sampleBlock sampleCipher)
  aesDecrypt := fun _ block =>
    some (List.zipWith (· ^^^ ·) block (List.zipWith (· ^^^ ·) sampleBlock sampleCipher))

/-- What is added twice is gone. -/
theorem zipWith_xor_xor (as bs : List UInt8) (h : as.length = bs.length) :
    List.zipWith (· ^^^ ·) (List.zipWith (· ^^^ ·) as bs) bs = as := by
  induction as generalizing bs with
  | nil => rfl
  | cons a as ih =>
    cases bs with
    | nil => cases h
    | cons b bs =>
      have hb : a ^^^ b ^^^ b = a := by rw [UInt8.xor_assoc, UInt8.xor_self, UInt8.xor_zero]
      simp only [List.zipWith_cons_cons, hb, ih bs (Nat.succ.inj h)]

/-- The two functions undo each other. -/
theorem sampleAes_inverts : AesInverts sampleAes := by
  intro key block _ hblock
  have hmask : (List.zipWith (· ^^^ ·) sampleBlock sampleCipher).length = 16 := rfl
  refine ⟨?_, congrArg some (zipWith_xor_xor _ _ (hblock.trans hmask.symm))⟩
  show (List.zipWith _ _ _).length = 16
  rw [List.length_zipWith, hblock, hmask]
  rfl

/-- Memory is there and the store takes values. -/
def roomyEnv : StorageEnv where
  heap := some fun _ => 0xA5
  stack := List.replicate 16 0
  room := true
  readTriples := fun triples n => some (readBytes triples 0 n)
  writeTriples := fun triples bytes => (true, writeBytes triples 0 bytes)

def emptyStore : GenieStore := ⟨fun _ => none, fun _ => 0xFF⟩

/-- There is no memory for a buffer. -/
def fullEnv : StorageEnv := { roomyEnv with heap := none }

/-- The block is written. -/
theorem sample_write : ∃ s, genieStorageWriteReliable sampleAes sampleKey roomyEnv emptyStore
    (1 : UInt16).toNat sampleBlock = (.success, s) := ⟨_, rfl⟩

/-- The block is written, user data is written elsewhere, and the block is read. -/
theorem reliable_storage_sample :
    sampleKey.length = 16 ∧ AesInverts sampleAes ∧ ∃ s₁ s₂,
      genieStorageWriteReliable sampleAes sampleKey roomyEnv emptyStore (1 : UInt16).toNat
        sampleBlock = (.success, s₁) ∧
      runSteps (storageStep sampleAes sampleKey) s₁ [.writeUserdata roomyEnv 13 [1]] = some s₂ ∧
      genieStorageReadReliable sampleAes sampleKey roomyEnv s₂ (1 : UInt16).toNat 16 =
        .ok sampleBlock := by
  obtain ⟨s₁, hwrite⟩ := sample_write
  have hothers : ∀ a ∈ [StorageAct.writeUserdata roomyEnv 13 [1]], ¬ Writes 1 a := by
    intro a ha
    rw [List.mem_singleton.1 ha]
    show ¬ (13 : UInt16) = 1
    decide
  exact ⟨rfl, sampleAes_inverts, s₁, _, hwrite, rfl,
    (reliable_storage sampleAes sampleKey rfl sampleAes_inverts).1 1 sampleBlock roomyEnv roomyEnv
      emptyStore s₁ _ [.writeUserdata roomyEnv 13 [1]] (by decide) (by decide) (by decide) hwrite
      hothers rfl (Option.some_ne_none _)⟩

/-- Without memory for the buffer the read of a stored value fails. -/
theorem read_without_memory :
    ¬ ∀ (c : Crypto) (encKey : List UInt8), encKey.length = 16 → AesInverts c →
      ∀ (index : UInt16) (data : List UInt8) (env env' : StorageEnv) (s s₁ s₂ : GenieStore)
        (as : List StorageAct), index.toNat ≠ gfiMeshTrituple → 1 ≤ data.length →
        data.length < 2 ^ 16 →
        genieStorageWriteReliable c encKey env s index.toNat data = (.success, s₁) →
        (∀ a ∈ as, ¬ Writes index a) → runSteps (storageStep c encKey) s₁ as = some s₂ →
        genieStorageReadReliable c encKey env' s₂ index.toNat data.length = .ok data := by
  intro hall
  obtain ⟨s₁, hwrite⟩ := sample_write
  have hread := hall sampleAes sampleKey rfl sampleAes_inverts 1 sampleBlock roomyEnv fullEnv
    emptyStore s₁ s₁ [] (by decide) (by decide) (by decide) hwrite nofun rfl
  cases hread

end GenieSdk.Analysis.Storage
