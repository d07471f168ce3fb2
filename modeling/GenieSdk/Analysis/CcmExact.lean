import GenieSdk.Analysis.AesInverse
import GenieSdk.Model.MeshCrypto

/-!
# What AES-CCM accepts

Both functions put the same masks on the blocks and take the same MIC over the plain text (`ccm_encrypt_eq`,
`ccm_decrypt_eq`). So decryption returns what was encrypted, and it **accepts nothing but** what encryption
makes (`ccm_exact`).
-/

set_option autoImplicit false

namespace GenieSdk.Analysis.Ccm

open GenieSdk.Lib
open GenieSdk.Model
open GenieSdk.Analysis.Aes

/-- The masks of a nonce. -/
def ccmMask (key nonce : List UInt8) (j : ℕ) : List UInt8 := btEncryptBe key (ccmCounter nonce (j + 1))

/-- `Xn` and the MIC in the loop, over the plain text. -/
def macBlock (key cmic msg : List UInt8) (blkCnt : ℕ) (st : List UInt8 × List UInt8) (j : ℕ) :
    List UInt8 × List UInt8 :=
  let xn := btEncryptBe key (xorInto st.1 (chunk 16 j msg))
  (xn, if j + 1 = blkCnt then xorBytes cmic xn else st.2)

/-- The MIC of a message. -/
def ccmTag (key stack nonce msg : List UInt8) (ad : Option LabelUuid) (micSize : ℕ) : List UInt8 :=
  let xn := ccmAad key (btEncryptBe key (ccmFirst nonce msg.length (adBytes ad).length micSize)) (adBytes ad)
  let blkCnt := (msg.length + 15) / 16
  let cmic := btEncryptBe key (ccmCounter nonce 0)
  ((List.range blkCnt).foldl (macBlock key cmic msg blkCnt) (xn, stack)).2.take micSize

section Loops

variable {key cmic nonce msg enc xn mic : List UInt8}

/-- A block of the key stream has sixteen bytes. -/
theorem length_ccmMask (key nonce : List UInt8) (j : ℕ) : (ccmMask key nonce j).length = 16 :=
  length_btEncryptBe key _

/-- The loop of the encryption. -/
theorem encrypt_loop (blkCnt n : ℕ) :
    (List.range n).foldl (ccmEncryptBlock key cmic nonce msg blkCnt) ⟨[], xn, mic⟩ =
      ⟨(maskBlocks (ccmMask key nonce) 16 msg).take (16 * n),
        ((List.range n).foldl (macBlock key cmic msg blkCnt) (xn, mic)).1,
        ((List.range n).foldl (macBlock key cmic msg blkCnt) (xn, mic)).2⟩ := by
  rw [← foldl_chunks (by norm_num) (length_ccmMask key nonce)]
  induction n with
  | zero => rfl
  | succ n ih =>
    simp only [List.range_succ, List.foldl_append, List.foldl_cons, List.foldl_nil]
    rw [ih]
    simp only [ccmEncryptBlock, macBlock, ccmMask]

/-- The loop of the decryption. -/
theorem decrypt_loop (blkCnt n : ℕ) :
    (List.range n).foldl (ccmDecryptBlock key cmic nonce enc blkCnt) ⟨[], xn, mic⟩ =
      ⟨(maskBlocks (ccmMask key nonce) 16 enc).take (16 * n),
        ((List.range n).foldl (macBlock key cmic (maskBlocks (ccmMask key nonce) 16 enc) blkCnt) (xn, mic)).1,
        ((List.range n).foldl (macBlock key cmic (maskBlocks (ccmMask key nonce) 16 enc) blkCnt) (xn, mic)).2⟩ := by
  rw [← foldl_chunks (by norm_num) (length_ccmMask key nonce)]
  induction n with
  | zero => rfl
  | succ n ih =>
    have hplain : chunk 16 n (maskBlocks (ccmMask key nonce) 16 enc) =
        xorBytes (chunk 16 n enc) (ccmMask key nonce n) := chunk_maskBlocks (by norm_num) (length_ccmMask key nonce n)
    simp only [List.range_succ, List.foldl_append, List.foldl_cons, List.foldl_nil]
    rw [ih]
    simp only [ccmDecryptBlock, macBlock, hplain]
    simp only [ccmMask]

/-- A block of the message is mixed into the state. -/
theorem macBlock_fst (blkCnt : ℕ) (st : List UInt8 × List UInt8) (j : ℕ) :
    (macBlock key cmic msg blkCnt st j).1 = btEncryptBe key (xorInto st.1 (chunk 16 j msg)) := by
  simp only [macBlock]

/-- The last one gives the tag. -/
theorem macBlock_last (st : List UInt8 × List UInt8) (n : ℕ) :
    (macBlock key cmic msg (n + 1) st n).2 = xorBytes cmic (macBlock key cmic msg (n + 1) st n).1 := by
  simp only [macBlock, if_true]

/-- The blocks that are authenticated do not depend on what is in `mic`. -/
theorem macBlocks_fst (mic mic' : List UInt8) (blkCnt n : ℕ) :
    ((List.range n).foldl (macBlock key cmic msg blkCnt) (xn, mic')).1 =
      ((List.range n).foldl (macBlock key cmic msg blkCnt) (xn, mic)).1 := by
  induction n with
  | zero => rfl
  | succ n ih =>
    simp only [List.range_succ, List.foldl_append, List.foldl_cons, List.foldl_nil]
    rw [macBlock_fst, macBlock_fst, ih]

/-- Nor does the MIC, once there was a block. -/
theorem macBlocks_snd (mic mic' : List UInt8) {blkCnt : ℕ} (hcnt : 0 < blkCnt) :
    ((List.range blkCnt).foldl (macBlock key cmic msg blkCnt) (xn, mic')).2 =
      ((List.range blkCnt).foldl (macBlock key cmic msg blkCnt) (xn, mic)).2 := by
  obtain ⟨n, rfl⟩ : ∃ n, blkCnt = n + 1 := ⟨blkCnt - 1, by omega⟩
  simp only [List.range_succ, List.foldl_append, List.foldl_cons, List.foldl_nil]
  rw [macBlock_last, macBlock_last, macBlock_fst, macBlock_fst, macBlocks_fst mic mic']

/-- After the last block the MIC is there. -/
theorem length_macBlocks {blkCnt : ℕ} (hcnt : 0 < blkCnt) (hcmic : cmic.length = 16) :
    ((List.range blkCnt).foldl (macBlock key cmic msg blkCnt) (xn, mic)).2.length = 16 := by
  obtain ⟨n, rfl⟩ : ∃ n, blkCnt = n + 1 := ⟨blkCnt - 1, by omega⟩
  rw [List.range_succ, List.foldl_append, List.foldl_cons, List.foldl_nil, macBlock_last, macBlock_fst,
    length_xorBytes, hcmic, length_btEncryptBe, Nat.min_self]

end Loops

section Exact

variable {key stack stack' nonce msg enc : List UInt8} {ad : Option LabelUuid} {micSize msgLen : ℕ}

/-- Additional data is never too long. -/
theorem length_adBytes (ad : Option LabelUuid) : (adBytes ad).length < 0xff00 := by
  cases ad with
  | none => decide
  | some label =>
    change label.toList.length < 0xff00
    rw [Vector.length_toList]
    norm_num

/-- The tag has the length that is asked for. -/
theorem length_ccmTag (hmsg : 1 ≤ msg.length) (hmic : micSize ≤ 16) :
    (ccmTag key stack nonce msg ad micSize).length = micSize := by
  unfold ccmTag
  rw [List.length_take, length_macBlocks (by omega) (length_btEncryptBe key _)]
  omega

/-- The tag does not depend on what lies on the stack. -/
theorem ccmTag_stack (stack stack' : List UInt8) (hmsg : 1 ≤ msg.length) :
    ccmTag key stack' nonce msg ad micSize = ccmTag key stack nonce msg ad micSize := by
  unfold ccmTag
  dsimp only
  rw [macBlocks_snd stack stack' (by omega)]

/-- The masks cover the message. -/
theorem take_blocks (msg : List UInt8) : msg.take (16 * ((msg.length + 15) / 16)) = msg :=
  List.take_of_length_le (by omega)

/-- **Encryption** masks the message and puts the MIC behind it. -/
theorem ccm_encrypt_eq : btMeshCcmEncrypt key stack nonce msg ad micSize =
    some (maskBlocks (ccmMask key nonce) 16 msg ++ ccmTag key stack nonce msg ad micSize) := by
  have hcover := take_blocks (maskBlocks (ccmMask key nonce) 16 msg)
  rw [length_maskBlocks] at hcover
  have had := length_adBytes ad
  unfold btMeshCcmEncrypt ccmTag
  dsimp only
  rw [if_neg (by omega), encrypt_loop, hcover]

/-- **Decryption** takes the masks off and compares the MIC. -/
theorem ccm_decrypt_eq (hpos : 1 ≤ msgLen) (hlen : msgLen ≤ enc.length) :
    btMeshCcmDecrypt key stack nonce enc msgLen ad micSize =
      if ccmTag key stack nonce (maskBlocks (ccmMask key nonce) 16 (enc.take msgLen)) ad micSize =
        (enc.drop msgLen).take micSize then some (maskBlocks (ccmMask key nonce) 16 (enc.take msgLen)) else none := by
  have htake : (maskBlocks (ccmMask key nonce) 16 (enc.take msgLen)).length = msgLen := by
    rw [length_maskBlocks, List.length_take]
    omega
  have hcover := take_blocks (maskBlocks (ccmMask key nonce) 16 (enc.take msgLen))
  rw [htake] at hcover
  have had := length_adBytes ad
  unfold btMeshCcmDecrypt ccmTag
  dsimp only
  rw [if_neg (by omega), decrypt_loop, hcover, htake]

/-- **AES-CCM is exact.** What is decrypted is the one message that encryption makes the bytes from. -/
theorem ccm_exact (stack stack' : List UInt8) (hpos : 1 ≤ msgLen) (hmic : micSize ≤ 16)
    (hlen : enc.length = msgLen + micSize) :
    btMeshCcmDecrypt key stack' nonce enc msgLen ad micSize = some msg ↔
      msg.length = msgLen ∧ btMeshCcmEncrypt key stack nonce msg ad micSize = some enc := by
  rw [ccm_decrypt_eq hpos (by omega), ccm_encrypt_eq]
  have hmicbytes : (enc.drop msgLen).take micSize = enc.drop msgLen :=
    List.take_of_length_le (by rw [List.length_drop]; omega)
  have hplain : (maskBlocks (ccmMask key nonce) 16 (enc.take msgLen)).length = msgLen := by
    rw [length_maskBlocks, List.length_take]
    omega
  rw [hmicbytes, ccmTag_stack stack stack' (hpos.trans_eq hplain.symm)]
  constructor
  · intro h
    split_ifs at h with htag
    obtain rfl := Option.some.inj h
    refine ⟨hplain, ?_⟩
    rw [maskBlocks_maskBlocks, htag, List.take_append_drop]
  · rintro ⟨rfl, h⟩
    obtain rfl := Option.some.inj h
    have hprefix : (maskBlocks (ccmMask key nonce) 16 msg).length = msg.length := length_maskBlocks _ _ _
    rw [← hprefix, List.take_left, List.drop_left, maskBlocks_maskBlocks, if_pos rfl]

end Exact

end GenieSdk.Analysis.Ccm
