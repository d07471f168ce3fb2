import GenieSdk.Model.Aes
import GenieSdk.Model.MeshDecode

/-!
# The encryption of mesh PDUs

`crypto.c`: AES-CCM over `bt_mesh_aes_encrypt`, with which PDUs are encrypted on the network layer and payloads on the
transport layer, and the obfuscation of the header. `bt_mesh_net_encode` puts the network PDU together. Messages are
shorter than 2 ^ 16 bytes and AES does not fail; `stack` is what is in `mic` before there is a MIC.
-/

set_option autoImplicit false

namespace GenieSdk.Model

open GenieSdk.Lib

/-! ## AES-CCM -/

/-- `0x01 || nonce || j` -/
def ccmCounter (nonce : List UInt8) (j : ℕ) : List UInt8 := 0x01 :: nonce ++ beBytes 2 j

/-- `0x09 || nonce || length`, with the bits for a long MIC and for additional data. -/
def ccmFirst (nonce : List UInt8) (msgLen aadLen micSize : ℕ) : List UInt8 :=
  ((if micSize = 8 then 0x19 else 0x09) ||| (if aadLen = 0 then 0x00 else 0x40)) :: nonce ++ beBytes 2 msgLen

/-- `Xn ^ block`; behind a short block `Xn` stays as it is. -/
def xorInto (xn block : List UInt8) : List UInt8 := xorBytes xn block ++ xn.drop block.length

/-- The label of a virtual address. -/
abbrev LabelUuid := Vector UInt8 16

/-- The additional data: nothing, or a label. -/
def adBytes : Option LabelUuid → List UInt8
  | none => []
  | some label => label.toList

/-- The loop over the additional data and what comes after it. `bytes` is what is left, at first with the two bytes
of the length in front. -/
def ccmAadLoop (key : List UInt8) : ℕ → List UInt8 → List UInt8 → List UInt8
  | 0, xn, _ => xn
  | fuel + 1, xn, bytes =>
    if 16 < bytes.length then
      ccmAadLoop key fuel (btEncryptBe key (xorInto xn (bytes.take 16))) (bytes.drop 16)
    else btEncryptBe key (xorInto xn bytes)

def ccmAad (key xn aad : List UInt8) : List UInt8 :=
  if aad.length = 0 then xn else ccmAadLoop key (aad.length + 2) xn (beBytes 2 aad.length ++ aad)

/-- The output, `Xn` and the MIC in the loop over the blocks. -/
structure CcmState where
  out : List UInt8
  xn : List UInt8
  mic : List UInt8

/-- The round of `bt_mesh_ccm_encrypt` for a block. -/
def ccmEncryptBlock (key cmic nonce msg : List UInt8) (blkCnt : ℕ) (st : CcmState) (j : ℕ) : CcmState :=
  let block := chunk 16 j msg
  let xn := btEncryptBe key (xorInto st.xn block)
  let cmsg := btEncryptBe key (ccmCounter nonce (j + 1))
  { out := st.out ++ xorBytes block cmsg
    xn := xn
    mic := if j + 1 = blkCnt then xorBytes cmic xn else st.mic }

/-- SRCLINE: crypto.c:383-569 -/
def btMeshCcmEncrypt (key stack nonce msg : List UInt8) (ad : Option LabelUuid) (micSize : ℕ) : Option (List UInt8) :=
  let aad := adBytes ad
  if 0xff00 ≤ aad.length then none
  else
    let cmic := btEncryptBe key (ccmCounter nonce 0)
    let xn := btEncryptBe key (ccmFirst nonce msg.length aad.length micSize)
    let xn := ccmAad key xn aad
    let blkCnt := (msg.length + 15) / 16
    let st := (List.range blkCnt).foldl (ccmEncryptBlock key cmic nonce msg blkCnt) ⟨[], xn, stack⟩
    some (st.out ++ st.mic.take micSize)

/-- The round of `bt_mesh_ccm_decrypt` for a block. -/
def ccmDecryptBlock (key cmic nonce enc : List UInt8) (blkCnt : ℕ) (st : CcmState) (j : ℕ) : CcmState :=
  let cmsg := btEncryptBe key (ccmCounter nonce (j + 1))
  let msg := xorBytes (chunk 16 j enc) cmsg
  let xn := btEncryptBe key (xorInto st.xn msg)
  { out := st.out ++ msg
    xn := xn
    mic := if j + 1 = blkCnt then xorBytes cmic xn else st.mic }

/-- `encMsg` has the MIC behind its `msgLen` bytes. SRCLINE: crypto.c:195-381 -/
def btMeshCcmDecrypt (key stack nonce encMsg : List UInt8) (msgLen : ℕ) (ad : Option LabelUuid) (micSize : ℕ) :
    Option (List UInt8) :=
  let aad := adBytes ad
  if msgLen < 1 ∨ 0xff00 ≤ aad.length then none
  else
    let cmic := btEncryptBe key (ccmCounter nonce 0)
    let xn := btEncryptBe key (ccmFirst nonce msgLen aad.length micSize)
    let xn := ccmAad key xn aad
    let blkCnt := (msgLen + 15) / 16
    let st := (List.range blkCnt).foldl (ccmDecryptBlock key cmic nonce (encMsg.take msgLen) blkCnt) ⟨[], xn, stack⟩
    if st.mic.take micSize = (encMsg.drop msgLen).take micSize then some st.out else none

/-! ## The network layer -/

/-- `NET_MIC_LEN` -/
def netMicLen (pdu : List UInt8) : ℕ := if pdu.getD 1 0 &&& 0x80 = 0 then 4 else 8

/-- The sequence number and the source address of a PDU. -/
def seqAndSrc (pdu : List UInt8) : List UInt8 := (pdu.drop 2).take 5

/-- SRCLINE: crypto.c:572-596 -/
def createProxyNonce (pdu : List UInt8) (ivIndex : UInt32) : List UInt8 :=
  [0x03, 0x00] ++ seqAndSrc pdu ++ [0, 0] ++ beBytes 4 ivIndex.toNat

/-- SRCLINE: crypto.c:599-623 -/
def createNetNonce (pdu : List UInt8) (ivIndex : UInt32) : List UInt8 :=
  [0x00, pdu.getD 1 0] ++ seqAndSrc pdu ++ [0, 0] ++ beBytes 4 ivIndex.toNat

def netNonce (pdu : List UInt8) (ivIndex : UInt32) (proxy : Bool) : List UInt8 :=
  if proxy then createProxyNonce pdu ivIndex else createNetNonce pdu ivIndex

/-- SRCLINE: crypto.c:625-657 -/
def btMeshNetObfuscate (pdu : List UInt8) (ivIndex : UInt32) (privacyKey : List UInt8) : List UInt8 :=
  let privRand := List.replicate 5 0x00 ++ beBytes 4 ivIndex.toNat ++ (pdu.drop 7).take 7
  let tmp := btEncryptBe privacyKey privRand
  pdu.take 1 ++ xorBytes ((pdu.drop 1).take 6) tmp ++ pdu.drop 7

/-- SRCLINE: crypto.c:659-693 -/
def btMeshNetEncrypt (key stack buf : List UInt8) (ivIndex : UInt32) (proxy : Bool) : Option (List UInt8) :=
  (btMeshCcmEncrypt key stack (netNonce buf ivIndex proxy) (buf.drop 7) none (netMicLen buf)).map (buf.take 7 ++ ·)

/-- The PDU is not shorter than its MIC. SRCLINE: crypto.c:695-724 -/
def btMeshNetDecrypt (key stack buf : List UInt8) (ivIndex : UInt32) (proxy : Bool) : Option (List UInt8) :=
  let len := buf.length - netMicLen buf
  (btMeshCcmDecrypt key stack (netNonce buf ivIndex proxy) (buf.drop 7) (len - 7) none (netMicLen buf)).map
    (buf.take 7 ++ ·)

/-- What `bt_mesh_net_decode` uses. -/
def sdkNetCrypto (stack : List UInt8) : NetCrypto (List UInt8) where
  obfuscate := fun privacyKey ivIndex pdu => some (btMeshNetObfuscate pdu ivIndex privacyKey)
  decrypt := fun key ivIndex proxy pdu => btMeshNetDecrypt key stack pdu ivIndex proxy

/-- What `bt_mesh_net_encode` reads of `struct bt_mesh_net_tx`; `ctl` says that there is no application key. -/
structure NetTx where
  src : ℕ
  dst : ℕ
  sendTtl : ℕ
  ctl : Bool
  deriving DecidableEq, Repr

/-- The nine bytes in front of the payload. -/
def netHeader (nid : ℕ) (m : MeshNet) (tx : NetTx) : List UInt8 :=
  [UInt8.ofNat (nid ||| m.iviTx.toNat % 2 * 128), UInt8.ofNat (if tx.ctl then tx.sendTtl ||| 0x80 else tx.sendTtl)] ++
    beBytes 3 m.seq ++ beBytes 2 tx.src ++ beBytes 2 tx.dst

/-- The PDU that `bt_mesh_net_encode` makes under the keys it has chosen, in a buffer with so much room behind the
payload; `btMeshNetEncode` has the number that it takes. SRCLINE: net.c:895-968 -/
def netEncodePdu (keys : SubnetKeys (List UInt8)) (stack : List UInt8) (m : MeshNet) (tx : NetTx) (proxy : Bool)
    (tailroom : ℕ) (payload : List UInt8) : Option (List UInt8) :=
  if tx.ctl ∧ tailroom < 8 then none
  else if tailroom < 4 then none
  else (btMeshNetEncrypt keys.enc stack (netHeader keys.nid m tx ++ payload) m.iviTx proxy).map fun pdu =>
    btMeshNetObfuscate pdu m.iviTx keys.privacy

/-! ## The transport layer -/

/-- `APP_MIC_LEN` -/
def appMicLen (aszmic : Bool) : ℕ := if aszmic then 8 else 4

/-- SRCLINE: crypto.c:726-745 -/
def createAppNonce (devKey aszmic : Bool) (src dst seqNum : ℕ) (ivIndex : UInt32) : List UInt8 :=
  (if devKey then 0x02 else 0x01) :: beBytes 4 (seqNum ||| (if aszmic then 2 ^ 31 else 0)) ++ beBytes 2 src ++
    beBytes 2 dst ++ beBytes 4 ivIndex.toNat

/-- SRCLINE: crypto.c:747-772 -/
def btMeshAppEncrypt (key stack : List UInt8) (devKey aszmic : Bool) (buf : List UInt8) (ad : Option LabelUuid)
    (src dst seqNum : ℕ) (ivIndex : UInt32) : Option (List UInt8) :=
  btMeshCcmEncrypt key stack (createAppNonce devKey aszmic src dst seqNum ivIndex) buf ad
    (appMicLen aszmic)

/-- `buf` has its MIC behind its `len` bytes. SRCLINE: crypto.c:774-797 -/
def btMeshAppDecrypt (key stack : List UInt8) (devKey aszmic : Bool) (buf : List UInt8) (len : ℕ)
    (ad : Option LabelUuid) (src dst seqNum : ℕ) (ivIndex : UInt32) : Option (List UInt8) :=
  btMeshCcmDecrypt key stack (createAppNonce devKey aszmic src dst seqNum ivIndex) buf len ad
    (appMicLen aszmic)

end GenieSdk.Model
