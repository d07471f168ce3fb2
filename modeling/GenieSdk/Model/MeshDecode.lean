import GenieSdk.Lib.Bytes
import GenieSdk.Lib.RecentRing
import GenieSdk.Model.MeshTransport

/-!
# Decoding network PDUs

`net.c`: `bt_mesh_net_decode` drops PDUs that were seen before, looks for a key under which a PDU can be
decrypted and reads its header. Two rings remember what was seen: `dup_cache` the end of the raw PDU,
`msg_cache` a hash of the header. Obfuscation and AES-CCM are parameters, the keys are of any type.
-/

set_option autoImplicit false

namespace GenieSdk.Model

open GenieSdk.Lib

/-- `enum bt_mesh_net_if` -/
inductive NetIf
  | adv
  | loc
  | proxy
  | proxyCfg
  deriving DecidableEq, Repr

/-- `kr_phase` of a subnet -/
inductive KrPhase
  | normal
  | phase1
  | phase2
  | phase3
  deriving DecidableEq, Repr

/-- `struct bt_mesh_subnet_keys`, what is used to receive. -/
structure SubnetKeys (κ : Type) where
  nid : ℕ
  enc : κ
  privacy : κ

/-- `struct bt_mesh_subnet`; `keys` are its two sets of keys. -/
structure Subnet (κ : Type) where
  netIdx : ℕ
  krPhase : KrPhase
  keys : SubnetKeys κ × SubnetKeys κ

/-- `bt_mesh_net_obfuscate` and `bt_mesh_net_decrypt`: the PDU afterwards, or nothing if they fail. The
`Bool` says that it is a proxy configuration PDU. -/
structure NetCrypto (κ : Type) where
  obfuscate : κ → UInt32 → List UInt8 → Option (List UInt8)
  decrypt : κ → UInt32 → Bool → List UInt8 → Option (List UInt8)

/-- What decoding depends on; `isElem` is `bt_mesh_elem_find`. -/
structure NetNode (κ : Type) where
  crypto : NetCrypto κ
  ivIndex : UInt32
  subs : List (Subnet κ)
  isElem : ℕ → Bool

/-- The two caches. -/
structure NetCaches where
  dup : RecentRing ℕ
  msg : RecentRing ℕ
  deriving DecidableEq, Repr

/-- `size` is `CONFIG_BT_MESH_MSG_CACHE_SIZE`. -/
def netCachesInit (size : ℕ) : NetCaches := ⟨RecentRing.filled size 0, RecentRing.filled size 0⟩

/-- A big-endian number. -/
def beVal (bs : List UInt8) : ℕ := leVal bs.reverse

/-- `BT_MESH_NET_MIN_PDU_LEN` -/
def btMeshNetMinPduLen : ℕ := 9 + 1 + 8

/-- The last two words of a PDU. -/
def dupVal (data : List UInt8) : ℕ :=
  beVal (data.drop (data.length - 4)) ^^^ beVal ((data.drop (data.length - 8)).take 4)

/-- SRCLINE: net.c:100-121 -/
def checkDup (s : NetCaches) (data : List UInt8) : Bool × NetCaches :=
  let (hit, dup) := s.dup.look (dupVal data)
  (hit, { s with dup := dup })

/-- SRCLINE: net.c:123-133 -/
def msgHash (ivi : UInt32) (pdu : List UInt8) : ℕ :=
  (ivi.toNat * 256 % 2 ^ 32 + (pdu.getD 2 0).toNat) * 2 ^ 32 + leVal ((pdu.drop 3).take 4)

/-- SRCLINE: net.c:135-154 -/
def msgCacheMatch (s : NetCaches) (ivi : UInt32) (pdu : List UInt8) : Bool × NetCaches :=
  let (hit, msg) := s.msg.look (msgHash ivi pdu)
  (hit, { s with msg := msg })

/-- Whether the PDU was sent under the previous IV index. -/
def oldIvOf (ivIndex : UInt32) (data : List UInt8) : Bool :=
  (data.getD 0 0).toNat / 128 ≠ ivIndex.toNat % 2

/-- The IV index of a PDU, `BT_MESH_NET_IVI_RX`. -/
def NetNode.iviOf {κ : Type} (node : NetNode κ) (data : List UInt8) : UInt32 :=
  node.ivIndex - (if oldIvOf node.ivIndex data then 1 else 0)

/-- `BT_MESH_ADDR_IS_RFU` -/
def addrIsRfu (addr : ℕ) : Bool := 0xff00 ≤ addr ∧ addr ≤ 0xfffb

/-- The source address and the PDU, or nothing if an error is returned. SRCLINE: net.c:1113-1154 -/
def netDecrypt {κ : Type} (node : NetNode κ) (netIf : NetIf) (keys : SubnetKeys κ)
    (data : List UInt8) (s : NetCaches) : Option (ℕ × List UInt8) × NetCaches :=
  match node.crypto.obfuscate keys.privacy (node.iviOf data) data with
  | none => (none, s)
  | some buf =>
    let (hit, s) := if netIf = .adv then msgCacheMatch s (node.iviOf data) buf else (false, s)
    if hit then (none, s)
    else
      let src := beVal ((buf.drop 5).take 2)
      if ¬ addrIsUnicast src then (none, s)
      else
        match node.crypto.decrypt keys.enc (node.iviOf data) (netIf = .proxyCfg) buf with
        | none => (none, s)
        | some buf => (some (src, buf), s)

/-- The keys that are tried for a subnet, in order; the `Bool` says that it is the new one. -/
def Subnet.tried {κ : Type} (sub : Subnet κ) : List (ℕ × Bool × SubnetKeys κ) :=
  if sub.netIdx = 0xffff then []
  else
    (sub.netIdx, false, sub.keys.1) ::
      if sub.krPhase = .normal then [] else [(sub.netIdx, true, sub.keys.2)]

/-- All keys that are tried, in order. -/
def NetNode.tried {κ : Type} (node : NetNode κ) : List (ℕ × Bool × SubnetKeys κ) :=
  node.subs.flatMap Subnet.tried

/-- The index of the subnet, whether the key is the new one, the source and the PDU.
SRCLINE: net.c:1200-1246 -/
def netFindAndDecrypt {κ : Type} (node : NetNode κ) (netIf : NetIf) (data : List UInt8) :
    List (ℕ × Bool × SubnetKeys κ) → NetCaches → Option (ℕ × Bool × ℕ × List UInt8) × NetCaches
  | [], s => (none, s)
  | (netIdx, newKey, keys) :: rest, s =>
    if (data.getD 0 0).toNat % 128 ≠ keys.nid then netFindAndDecrypt node netIf data rest s
    else
      match netDecrypt node netIf keys data s with
      | (some (src, buf), s) => (some (netIdx, newKey, src, buf), s)
      | (none, s) => netFindAndDecrypt node netIf data rest s

/-- `struct bt_mesh_net_rx` after decoding. -/
structure NetDecoded where
  netIdx : ℕ
  newKey : Bool
  oldIv : Bool
  src : ℕ
  recvTtl : ℕ
  sendTtl : ℕ
  ctl : Bool
  seq : ℕ
  dst : ℕ
  deriving DecidableEq, Repr

inductive DecodeErr
  | inval
  | noent
  | badmsg
  deriving DecidableEq, Repr

/-- The header and the PDU. SRCLINE: net.c:1394-1464 -/
def btMeshNetDecode {κ : Type} (node : NetNode κ) (netIf : NetIf) (s : NetCaches)
    (data : List UInt8) : Except DecodeErr (NetDecoded × List UInt8) × NetCaches :=
  if data.length < btMeshNetMinPduLen then (.error .inval, s)
  else
    let (hit, s) := if netIf = .adv then checkDup s data else (false, s)
    if hit then (.error .inval, s)
    else
      match netFindAndDecrypt node netIf data node.tried s with
      | (none, s) => (.error .noent, s)
      | (some (netIdx, newKey, src, buf), s) =>
        let recvTtl := (buf.getD 1 0).toNat % 128
        let dst := beVal ((buf.drop 7).take 2)
        if netIf ≠ .proxyCfg ∧ dst = 0 then (.error .badmsg, s)
        else if addrIsRfu dst then (.error .badmsg, s)
        else if netIf ≠ .loc ∧ node.isElem src then (.error .badmsg, s)
        else
          (.ok (⟨netIdx, newKey, oldIvOf node.ivIndex data, src, recvTtl,
            if recvTtl = 0 then 0 else 0xff, 128 ≤ (buf.getD 1 0).toNat,
            beVal ((buf.drop 2).take 3), dst⟩, buf), s)

end GenieSdk.Model
