import GenieSdk.Analysis.ReliableStorage
import GenieSdk.Model.Aes

/-!
# Decryption of blocks

Under every key `bt_encrypt_be` is a permutation of the blocks, and `bt_decrypt_be` is its inverse
(`aes_permutes`). Every step of a round is undone by the step of the same name in `aes_decrypt.c`, and the loop
of the decryption takes the round keys from the last one on.
-/

set_option autoImplicit false

namespace GenieSdk.Analysis.Aes

open GenieSdk.Lib
open GenieSdk.Model
open GenieSdk.Analysis.Storage

/-! ## Bytes -/

section Bytes

/-- The tables, entry by entry, as numbers, of which the kernel divides the digits off. -/
theorem tables_inverse : ∀ n < 256, leVal invSbox / 256 ^ (leVal sbox / 256 ^ n % 256) % 256 = n := by
  decide +kernel

/-- The two tables are inverse to each other. -/
theorem invSbox_sbox (a : UInt8) : invSbox.getD (sbox.getD a.toNat 0).toNat 0 = a := by
  have h := tables_inverse a.toNat a.toNat_lt
  rw [getD_eq_leVal invSbox, getD_eq_leVal sbox]
  apply UInt8.toNat_inj.1
  rw [UInt8.toNat_ofNat', UInt8.toNat_ofNat']
  exact h

/-- The bit that a shift leaves. -/
theorem shiftRight_seven (a : UInt8) : a >>> 7 = 0 ∨ a >>> 7 = 1 :=
  forall_byte (p := fun a => a >>> 7 = 0 ∨ a >>> 7 = 1) (by decide +kernel) a

/-- Doubling is linear. -/
theorem doubleByte_xor (a b : UInt8) : doubleByte (a ^^^ b) = doubleByte a ^^^ doubleByte b := by
  have hcarry : ((a >>> 7) ^^^ (b >>> 7)) * (0x1b : UInt8) =
      ((a >>> 7) * (0x1b : UInt8)) ^^^ ((b >>> 7) * (0x1b : UInt8)) := by
    rcases shiftRight_seven a with ha | ha <;> rcases shiftRight_seven b with hb | hb <;> rw [ha, hb] <;> decide
  unfold doubleByte
  rw [UInt8.shiftRight_xor, hcarry, UInt8.shiftLeft_xor]
  ac_rfl

/-- Bytes can be exchanged in a sum. -/
theorem xor_left_comm (a b c : UInt8) : a ^^^ (b ^^^ c) = b ^^^ (a ^^^ c) := by
  rw [← UInt8.xor_assoc, UInt8.xor_comm a, UInt8.xor_assoc]

/-- The products of the two matrices, for one byte: on the diagonal and beside it. -/
theorem mult_products (a : UInt8) :
    multe (doubleByte a) ^^^ multb a ^^^ multd a ^^^ mult9 (triple a) = a ∧
      multe (triple a) ^^^ multb (doubleByte a) ^^^ multd a ^^^ mult9 a = 0 ∧
      multe a ^^^ multb (triple a) ^^^ multd (doubleByte a) ^^^ mult9 a = 0 ∧
      multe a ^^^ multb a ^^^ multd (triple a) ^^^ mult9 (doubleByte a) = 0 := by
  refine ⟨?_, ?_, ?_, ?_⟩ <;>
    simp [multe, multb, multd, mult9, mult8, triple, doubleByte_xor, UInt8.xor_assoc, UInt8.xor_comm,
      xor_left_comm]

/-- The products are linear. -/
theorem mult_xor (a b : UInt8) : multe (a ^^^ b) = multe a ^^^ multe b ∧ multb (a ^^^ b) = multb a ^^^ multb b ∧
    multd (a ^^^ b) = multd a ^^^ multd b ∧ mult9 (a ^^^ b) = mult9 a ^^^ mult9 b := by
  unfold multe multb multd mult9 mult8
  simp only [doubleByte_xor]
  refine ⟨?_, ?_, ?_, ?_⟩ <;> ac_rfl

/-- A row of the inverse matrix on a column that was multiplied. -/
theorem invRow_row {a b c d p q r s : UInt8} (hp : p = doubleByte a ^^^ triple b ^^^ c ^^^ d)
    (hq : q = a ^^^ doubleByte b ^^^ triple c ^^^ d) (hr : r = a ^^^ b ^^^ doubleByte c ^^^ triple d)
    (hs : s = triple a ^^^ b ^^^ c ^^^ doubleByte d) : multe p ^^^ multb q ^^^ multd r ^^^ mult9 s = a := by
  subst hp hq hr hs
  simp only [(mult_xor _ _).1, (mult_xor _ _).2.1, (mult_xor _ _).2.2.1, (mult_xor _ _).2.2.2]
  calc _ = (multe (doubleByte a) ^^^ multb a ^^^ multd a ^^^ mult9 (triple a)) ^^^
        (multe (triple b) ^^^ multb (doubleByte b) ^^^ multd b ^^^ mult9 b) ^^^
        (multe c ^^^ multb (triple c) ^^^ multd (doubleByte c) ^^^ mult9 c) ^^^
        (multe d ^^^ multb d ^^^ multd (triple d) ^^^ mult9 (doubleByte d)) := by ac_rfl
    _ = a := by
      rw [(mult_products a).1, (mult_products b).2.1, (mult_products c).2.2.1, (mult_products d).2.2.2,
        UInt8.xor_zero, UInt8.xor_zero, UInt8.xor_zero]

end Bytes

/-! ## Blocks -/

section Blocks

variable {s : List UInt8} {k : List UInt32}

/-- A block, byte by byte. -/
theorem block_cases (h : s.length = 16) : ∃ s0 s1 s2 s3 s4 s5 s6 s7 s8 s9 s10 s11 s12 s13 s14 s15,
    s = [s0, s1, s2, s3, s4, s5, s6, s7, s8, s9, s10, s11, s12, s13, s14, s15] := by
  match s, h with
  | [s0, s1, s2, s3, s4, s5, s6, s7, s8, s9, s10, s11, s12, s13, s14, s15], _ =>
    exact ⟨s0, s1, s2, s3, s4, s5, s6, s7, s8, s9, s10, s11, s12, s13, s14, s15, rfl⟩

/-- The substitution of bytes is undone. -/
theorem invSubBytes_subBytes (s : List UInt8) : invSubBytes (subBytes s) = s := by
  unfold invSubBytes subBytes
  rw [List.map_map]
  exact (List.map_congr_left fun a _ => invSbox_sbox a).trans (List.map_id s)

/-- The shift of rows is undone. -/
theorem invShiftRows_shiftRows (h : s.length = 16) : invShiftRows (shiftRows s) = s := by
  obtain ⟨s0, s1, s2, s3, s4, s5, s6, s7, s8, s9, s10, s11, s12, s13, s14, s15, rfl⟩ := block_cases h
  rfl

/-- Every row of the inverse matrix is the first one, with the column turned. -/
theorem invMultRowColumn_multRowColumn (a b c d : UInt8) :
    invMultRowColumn (doubleByte a ^^^ triple b ^^^ c ^^^ d) (a ^^^ doubleByte b ^^^ triple c ^^^ d)
      (a ^^^ b ^^^ doubleByte c ^^^ triple d) (triple a ^^^ b ^^^ c ^^^ doubleByte d) = [a, b, c, d] := by
  have turn : ∀ p q r s : UInt8, mult9 s ^^^ multe p ^^^ multb q ^^^ multd r =
      multe p ^^^ multb q ^^^ multd r ^^^ mult9 s := fun p q r s => by ac_rfl
  have turn' : ∀ p q r s : UInt8, multd r ^^^ mult9 s ^^^ multe p ^^^ multb q =
      multe p ^^^ multb q ^^^ multd r ^^^ mult9 s := fun p q r s => by ac_rfl
  have turn'' : ∀ p q r s : UInt8, multb q ^^^ multd r ^^^ mult9 s ^^^ multe p =
      multe p ^^^ multb q ^^^ multd r ^^^ mult9 s := fun p q r s => by ac_rfl
  have ha := invRow_row (a := a) (b := b) (c := c) (d := d) rfl rfl rfl rfl
  have hb := invRow_row (a := b) (b := c) (c := d) (d := a) (p := a ^^^ doubleByte b ^^^ triple c ^^^ d)
    (q := a ^^^ b ^^^ doubleByte c ^^^ triple d) (r := triple a ^^^ b ^^^ c ^^^ doubleByte d)
    (s := doubleByte a ^^^ triple b ^^^ c ^^^ d) (by ac_rfl) (by ac_rfl) (by ac_rfl) (by ac_rfl)
  have hc := invRow_row (a := c) (b := d) (c := a) (d := b) (p := a ^^^ b ^^^ doubleByte c ^^^ triple d)
    (q := triple a ^^^ b ^^^ c ^^^ doubleByte d) (r := doubleByte a ^^^ triple b ^^^ c ^^^ d)
    (s := a ^^^ doubleByte b ^^^ triple c ^^^ d) (by ac_rfl) (by ac_rfl) (by ac_rfl) (by ac_rfl)
  have hd := invRow_row (a := d) (b := a) (c := b) (d := c) (p := triple a ^^^ b ^^^ c ^^^ doubleByte d)
    (q := doubleByte a ^^^ triple b ^^^ c ^^^ d) (r := a ^^^ doubleByte b ^^^ triple c ^^^ d)
    (s := a ^^^ b ^^^ doubleByte c ^^^ triple d) (by ac_rfl) (by ac_rfl) (by ac_rfl) (by ac_rfl)
  unfold invMultRowColumn
  rw [ha, turn, hb, turn', hc, turn'', hd]

/-- The mix of columns is undone. -/
theorem invMixColumns_mixColumns (h : s.length = 16) : invMixColumns (mixColumns s) = s := by
  obtain ⟨s0, s1, s2, s3, s4, s5, s6, s7, s8, s9, s10, s11, s12, s13, s14, s15, rfl⟩ := block_cases h
  have h₁ := invMultRowColumn_multRowColumn s0 s1 s2 s3
  have h₂ := invMultRowColumn_multRowColumn s4 s5 s6 s7
  have h₃ := invMultRowColumn_multRowColumn s8 s9 s10 s11
  have h₄ := invMultRowColumn_multRowColumn s12 s13 s14 s15
  exact congrArg₂ (· ++ ·) h₁ (congrArg₂ (· ++ ·) h₂ (congrArg₂ (· ++ ·) h₃ (congrArg₂ (· ++ ·) h₄ rfl)))

/-- Blocks stay blocks. -/
theorem length_onColumns {f : UInt8 → UInt8 → UInt8 → UInt8 → List UInt8} (hf : ∀ a b c d, (f a b c d).length = 4)
    (s : List UInt8) : (onColumns f s).length = 16 := by
  unfold onColumns
  rw [List.length_flatMap]
  simp only [hf]
  rfl

/-- Adding a round key leaves sixteen bytes. -/
theorem length_addRoundKey (h : s.length = 16) (hk : 4 ≤ k.length) : (addRoundKey s k).length = 16 := by
  unfold addRoundKey
  rw [length_xorBytes, h, List.length_flatMap]
  simp [wordBytes, hk]

/-- Adding it twice changes nothing. -/
theorem addRoundKey_addRoundKey (h : s.length = 16) (hk : 4 ≤ k.length) : addRoundKey (addRoundKey s k) k = s := by
  unfold addRoundKey
  refine xorBytes_xorBytes ?_
  rw [h, List.length_flatMap]
  simp [wordBytes, hk]

/-- The step before a round key is added. -/
def shiftedSub (s : List UInt8) : List UInt8 := shiftRows (subBytes s)

/-- The shifted substitution has sixteen bytes. -/
theorem length_shiftedSub (s : List UInt8) : (shiftedSub s).length = 16 := rfl

/-- And is undone. -/
theorem invShiftedSub (h : s.length = 16) : invSubBytes (invShiftRows (shiftedSub s)) = s := by
  have hsub : (subBytes s).length = 16 := (List.length_map _).trans h
  unfold shiftedSub
  rw [invShiftRows_shiftRows hsub, invSubBytes_subBytes]

end Blocks

/-! ## Rounds -/

section Rounds

variable {s : List UInt8} {k : List UInt32}

/-- A round, from one `shiftRows` to the next one. -/
def round (k : List UInt32) (s : List UInt8) (i : ℕ) : List UInt8 :=
  shiftedSub (addRoundKey (mixColumns s) (k.drop (4 * (i + 1))))

def invRound (k : List UInt32) (s : List UInt8) (i : ℕ) : List UInt8 :=
  invMixColumns (addRoundKey (invSubBytes (invShiftRows s)) (k.drop (4 * (i + 1))))

/-- A round is undone. -/
theorem invRound_round (hs : s.length = 16) {i : ℕ} (hk : 4 * (i + 2) ≤ k.length) :
    invRound k (round k s i) i = s := by
  have hlen : (mixColumns s).length = 16 := length_onColumns (fun _ _ _ _ => rfl) s
  have hkey : 4 ≤ (k.drop (4 * (i + 1))).length := by
    rw [List.length_drop]
    omega
  unfold invRound round
  rw [invShiftedSub (length_addRoundKey hlen hkey), addRoundKey_addRoundKey hlen hkey, invMixColumns_mixColumns hs]

/-- The rounds of the encryption. -/
theorem tcAesEncrypt_eq (block : List UInt8) (k : List UInt32) : tcAesEncrypt block k =
    addRoundKey ((List.range 9).foldl (round k) (shiftedSub (addRoundKey block k))) (k.drop 40) := by
  exact congrArg (addRoundKey · (k.drop 40)) (List.foldl_hom shiftedSub fun _ _ => rfl).symm

/-- Decryption undoes encryption. -/
theorem tcAesDecrypt_tcAesEncrypt (hs : s.length = 16) (hk : k.length = 44) :
    tcAesDecrypt (tcAesEncrypt s k) k = s := by
  have hlen : ∀ x i, x.length = 16 → (round k x i).length = 16 := fun _ _ _ => rfl
  have hkey : 4 ≤ k.length := by omega
  have hlast : 4 ≤ (k.drop 40).length := by
    rw [List.length_drop]
    omega
  have hundo : ∀ i ∈ List.range 9, ∀ x, x.length = 16 → invRound k (round k x i) i = x := fun i hi x hx =>
    invRound_round hx (by have := List.mem_range.1 hi; omega)
  have hrounds := foldl_undo hlen hundo (length_shiftedSub (addRoundKey s k))
  have hend := foldl_keeps hlen (length_shiftedSub (addRoundKey s k)) (List.range 9)
  have hfirst := length_addRoundKey hs hkey
  rw [tcAesEncrypt_eq]
  change addRoundKey (invSubBytes (invShiftRows ((List.range 9).reverse.foldl (invRound k)
    (addRoundKey (addRoundKey _ (k.drop 40)) (k.drop 40))))) k = s
  rw [addRoundKey_addRoundKey hend hlast, hrounds, invShiftedSub hfirst, addRoundKey_addRoundKey hs hkey]

/-- Forty words are made from the four of the key. -/
theorem length_schedule (key : List UInt8) : (tcAes128SetEncryptKey key).length = 44 :=
  length_foldl_append nextWord (List.range' 4 40) _

/-- A block is encrypted to sixteen bytes. -/
theorem length_tcAesEncrypt (hk : k.length = 44) : (tcAesEncrypt s k).length = 16 := by
  have hlast : 4 ≤ (k.drop 40).length := by
    rw [List.length_drop]
    omega
  rw [tcAesEncrypt_eq]
  have hlen : ∀ x i, x.length = 16 → (round k x i).length = 16 := fun _ _ _ => rfl
  exact length_addRoundKey (foldl_keeps hlen (length_shiftedSub _) _) hlast

/-- So it is with the byte order of the SDK. -/
theorem length_btEncryptBe (key block : List UInt8) : (btEncryptBe key block).length = 16 := by
  unfold btEncryptBe
  exact length_tcAesEncrypt (length_schedule key)

/-- Decryption undoes encryption there too. -/
theorem btDecryptBe_btEncryptBe (key : List UInt8) (hs : s.length = 16) : btDecryptBe key (btEncryptBe key s) = s := by
  unfold btDecryptBe btEncryptBe tcAes128SetDecryptKey
  exact tcAesDecrypt_tcAesEncrypt hs (length_schedule key)

/-- The SDK's AES is one that storage can rely on. -/
theorem sdkCrypto_inverts (sha256 : List UInt8 → List UInt8) : AesInverts (sdkCrypto sha256) := by
  intro key block _ hblock
  unfold sdkCrypto
  dsimp only
  exact ⟨length_btEncryptBe key block, congrArg some (btDecryptBe_btEncryptBe key hblock)⟩

end Rounds

/-! ## The permutation of a key -/

/-- A block of `TC_AES_BLOCK_SIZE` bytes. -/
abbrev AesBlock := { s : List UInt8 // s.length = 16 }

def encryptBlock (key : List UInt8) : AesBlock → AesBlock :=
  Subtype.map (btEncryptBe key) fun s _ => length_btEncryptBe key s

/-- A block is encrypted by `bt_encrypt_be`. -/
theorem encryptBlock_val (key : List UInt8) (block : AesBlock) :
    (encryptBlock key block).1 = btEncryptBe key block.1 := Subtype.map_coe _ _ block

/-- There are finitely many blocks. -/
theorem finite_aesBlock : Finite AesBlock := by
  have : Finite UInt8 := Finite.of_injective UInt8.toFin fun a b h => UInt8.toFin_inj.1 h
  have : Fintype UInt8 := Fintype.ofFinite UInt8
  exact inferInstanceAs (Finite (List.Vector UInt8 16))

/-- **AES is a permutation of the blocks** under every key, and `bt_decrypt_be` is its inverse. -/
theorem aes_permutes (key : List UInt8) : ∃ e : Equiv.Perm AesBlock, ∀ block : AesBlock,
    (e block).1 = btEncryptBe key block.1 ∧ (e.symm block).1 = btDecryptBe key block.1 := by
  have := finite_aesBlock
  have hundo : ∀ block : AesBlock, btDecryptBe key (encryptBlock key block).1 = block.1 := by
    intro block
    rw [encryptBlock_val, btDecryptBe_btEncryptBe key block.2]
  have hinj : Function.Injective (encryptBlock key) := by
    intro a b h
    refine Subtype.ext ?_
    rw [← hundo a, h, hundo b]
  have hbij := Finite.injective_iff_bijective.1 hinj
  refine ⟨Equiv.ofBijective _ hbij, fun block => ⟨encryptBlock_val key block, ?_⟩⟩
  obtain ⟨plain, hplain⟩ := hbij.2 block
  rw [← hplain, Equiv.ofBijective_symm_apply_apply, hundo]

end GenieSdk.Analysis.Aes
