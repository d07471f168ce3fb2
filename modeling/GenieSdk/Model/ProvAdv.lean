import GenieSdk.Lib.Blocks
import GenieSdk.Model.MeshDecode

/-!
# The provisioning bearer

`prov.c`: PB-ADV carries provisioning PDUs in transactions of up to three advertisements. The sender repeats them
until they are acknowledged, the receiver puts the segments together, checks the FCS and acknowledges a transaction
that it has seen before again.

What is done with a PDU is left out, also the checks of its type and its length before its handler is called:
`accepted` holds the PDUs that pass the FCS check and are acknowledged, and `sent` those that were passed to `prov_send`
with success. Both are read by no function. What `adv_buf_create` answers is a parameter.
-/

set_option autoImplicit false

namespace GenieSdk.Model

open GenieSdk.Lib

/-! ## The frame check sequence -/

/-- `crc_table`, reversed, 8 bits, the polynomial 0x07 -/
def crcTable : List UInt8 := [
  0x00, 0x91, 0xe3, 0x72, 0x07, 0x96, 0xe4, 0x75, 0x0e, 0x9f, 0xed, 0x7c, 0x09, 0x98, 0xea, 0x7b,
  0x1c, 0x8d, 0xff, 0x6e, 0x1b, 0x8a, 0xf8, 0x69, 0x12, 0x83, 0xf1, 0x60, 0x15, 0x84, 0xf6, 0x67,
  0x38, 0xa9, 0xdb, 0x4a, 0x3f, 0xae, 0xdc, 0x4d, 0x36, 0xa7, 0xd5, 0x44, 0x31, 0xa0, 0xd2, 0x43,
  0x24, 0xb5, 0xc7, 0x56, 0x23, 0xb2, 0xc0, 0x51, 0x2a, 0xbb, 0xc9, 0x58, 0x2d, 0xbc, 0xce, 0x5f,
  0x70, 0xe1, 0x93, 0x02, 0x77, 0xe6, 0x94, 0x05, 0x7e, 0xef, 0x9d, 0x0c, 0x79, 0xe8, 0x9a, 0x0b,
  0x6c, 0xfd, 0x8f, 0x1e, 0x6b, 0xfa, 0x88, 0x19, 0x62, 0xf3, 0x81, 0x10, 0x65, 0xf4, 0x86, 0x17,
  0x48, 0xd9, 0xab, 0x3a, 0x4f, 0xde, 0xac, 0x3d, 0x46, 0xd7, 0xa5, 0x34, 0x41, 0xd0, 0xa2, 0x33,
  0x54, 0xc5, 0xb7, 0x26, 0x53, 0xc2, 0xb0, 0x21, 0x5a, 0xcb, 0xb9, 0x28, 0x5d, 0xcc, 0xbe, 0x2f,
  0xe0, 0x71, 0x03, 0x92, 0xe7, 0x76, 0x04, 0x95, 0xee, 0x7f, 0x0d, 0x9c, 0xe9, 0x78, 0x0a, 0x9b,
  0xfc, 0x6d, 0x1f, 0x8e, 0xfb, 0x6a, 0x18, 0x89, 0xf2, 0x63, 0x11, 0x80, 0xf5, 0x64, 0x16, 0x87,
  0xd8, 0x49, 0x3b, 0xaa, 0xdf, 0x4e, 0x3c, 0xad, 0xd6, 0x47, 0x35, 0xa4, 0xd1, 0x40, 0x32, 0xa3,
  0xc4, 0x55, 0x27, 0xb6, 0xc3, 0x52, 0x20, 0xb1, 0xca, 0x5b, 0x29, 0xb8, 0xcd, 0x5c, 0x2e, 0xbf,
  0x90, 0x01, 0x73, 0xe2, 0x97, 0x06, 0x74, 0xe5, 0x9e, 0x0f, 0x7d, 0xec, 0x99, 0x08, 0x7a, 0xeb,
  0x8c, 0x1d, 0x6f, 0xfe, 0x8b, 0x1a, 0x68, 0xf9, 0x82, 0x13, 0x61, 0xf0, 0x85, 0x14, 0x66, 0xf7,
  0xa8, 0x39, 0x4b, 0xda, 0xaf, 0x3e, 0x4c, 0xdd, 0xa6, 0x37, 0x45, 0xd4, 0xa1, 0x30, 0x42, 0xd3,
  0xb4, 0x25, 0x57, 0xc6, 0xb3, 0x22, 0x50, 0xc1, 0xba, 0x2b, 0x59, 0xc8, 0xbd, 0x2c, 0x5e, 0xcf]

/-- One byte. -/
def fcsStep (fcs b : UInt8) : UInt8 := crcTable.getD (fcs ^^^ b).toNat 0

/-- The length is a byte. SRCLINE: crypto.c:839-851 -/
def btMeshFcsCalc (data : List UInt8) : UInt8 := 0xff - (data.take (data.length % 256)).foldl fcsStep 0xff

/-- SRCLINE: crypto.c:853-865 -/
def btMeshFcsCheck (data : List UInt8) (receivedFcs : UInt8) : Bool :=
  fcsStep (data.foldl fcsStep 0xff) receivedFcs = 0xcf

/-! ## The link -/

/-- `XACT_NVAL` -/
def xactNval : UInt8 := 0xff

/-- `slink.rx`. `data` and `len` are those of its buffer, `seg` has a bit for each segment that is missing. -/
structure ProvRx where
  id : UInt8
  prevId : UInt8
  seg : BitVec 8
  lastSeg : ℕ
  fcs : UInt8
  data : Mem
  len : ℕ

/-- `struct prov_link`, as far as PB-ADV depends on it, and `pending_ack`. `acks` are the acknowledgements that wait
to be sent; the `Bool` says that the callback is set. -/
structure ProvLink where
  linkActive : Bool
  id : ℕ
  rx : ProvRx
  txId : UInt8
  txBuf : List (List UInt8)
  pendingAck : UInt8
  acks : List (List UInt8 × Bool)
  accepted : List (List UInt8)
  sent : List (List UInt8)

/-- Whether `adv_buf_create` finds a buffer: for an acknowledgement, for how many segments, for a bearer message. -/
structure ProvBufs where
  ack : Bool
  msg : ℕ
  ctl : Bool
  deriving DecidableEq, Repr

inductive ProvErr
  | nobufs
  | tooBig
  deriving DecidableEq, Repr

/-- An advertisement. -/
def provFrame (linkId : ℕ) (xactId gpc : UInt8) (body : List UInt8) : List UInt8 :=
  beBytes 4 linkId ++ [xactId, gpc] ++ body

/-! ## Sending -/

/-- `START_PAYLOAD_MAX` -/
def startPayloadMax : ℕ := 20

/-- `CONT_PAYLOAD_MAX` -/
def contPayloadMax : ℕ := 23

/-- SRCLINE: prov.c:239-246 -/
def ProvLink.clearTx (s : ProvLink) : ProvLink := { s with txBuf := [] }

/-- The length is a byte. SRCLINE: prov.c:407-418 -/
def lastSeg (len : ℕ) : ℕ :=
  let len := len % 256
  if len ≤ startPayloadMax then 0 else 1 + (len - startPayloadMax) / contPayloadMax

/-- SRCLINE: prov.c:420-430 -/
def nextTransactionId (txId : UInt8) : UInt8 := if txId ≠ 0 ∧ txId ≠ 0xff then txId + 1 else 0x80

/-- `GPC_START` -/
def gpcStart (lastSeg : ℕ) : UInt8 := UInt8.ofNat (lastSeg * 4)

/-- `GPC_ACK` -/
def gpcAck : UInt8 := 0x01

/-- `GPC_CONT` -/
def gpcCont (segId : ℕ) : UInt8 := UInt8.ofNat (segId * 4 + 2)

/-- `GPC_CTL` -/
def gpcCtl (op : ℕ) : UInt8 := UInt8.ofNat (op * 4 + 3)

/-- What stands in the first advertisement of a PDU. -/
def startBody (msg : List UInt8) : List UInt8 :=
  beBytes 2 msg.length ++ [btMeshFcsCalc msg] ++ msg.take startPayloadMax

/-- The advertisements after the first one; `slots` is what is left of the array. SRCLINE: prov.c:464-492 -/
def contFrames (linkId : ℕ) (xactId : UInt8) : ℕ → ℕ → ℕ → List UInt8 → Except ProvErr (List (List UInt8))
  | _, _, _, [] => .ok []
  | 0, _, _, _ :: _ => .error .tooBig
  | _ + 1, _, 0, _ :: _ => .error .nobufs
  | slots + 1, segId, bufs + 1, b :: msg =>
    match contFrames linkId xactId slots (segId + 1) bufs ((b :: msg).drop contPayloadMax) with
    | .error e => .error e
    | .ok frames => .ok (provFrame linkId xactId (gpcCont segId) ((b :: msg).take contPayloadMax) :: frames)

/-- SRCLINE: prov.c:432-497 -/
def provSendAdv (s : ProvLink) (bufs : ℕ) (msg : List UInt8) : Option ProvErr × ProvLink :=
  let s := s.clearTx
  match bufs with
  | 0 => (some .nobufs, s)
  | bufs + 1 =>
    let xactId := nextTransactionId s.txId
    let s := { s with txId := xactId }
    let start := provFrame s.id xactId (gpcStart (lastSeg msg.length)) (startBody msg)
    match contFrames s.id xactId 2 1 bufs (msg.drop startPayloadMax) with
    | .error e => (some e, s)
    | .ok frames => (none, { s with txBuf := start :: frames })

/-- SRCLINE: prov.c:380-405 -/
def bearerCtlSend (s : ProvLink) (buf : Bool) (op : ℕ) (data : List UInt8) : ProvLink :=
  let s := s.clearTx
  if buf then { s with txBuf := [provFrame s.id 0 (gpcCtl op) data] } else s

/-! ## Receiving -/

/-- SRCLINE: prov.c:317-352 -/
def genProvAckSend (s : ProvLink) (buf : Bool) (xactId : UInt8) : ProvLink :=
  if s.pendingAck = xactId then s
  else if ¬ buf then s
  else if s.pendingAck = xactNval then
    { s with pendingAck := xactId, acks := s.acks ++ [(provFrame s.id xactId gpcAck [], true)] }
  else { s with acks := s.acks ++ [(provFrame s.id xactId gpcAck [], false)] }

/-- SRCLINE: prov.c:248-277 -/
def resetLink (s : ProvLink) : ProvLink :=
  { s.clearTx with
    linkActive := false, id := 0, txId := 0
    rx := { s.rx with id := 0, prevId := xactNval, seg := 0, lastSeg := 0, fcs := 0, len := 0 } }

/-- `LINK_ACK` and `LINK_CLOSE` of the bearer. -/
def linkAck : ℕ := 0x01

def linkClose : ℕ := 0x02

/-- `PROV_FAILED` -/
def provFailed : UInt8 := 0x09

/-- `PROV_ERR_NVAL_FMT` -/
def provErrNvalFmt : UInt8 := 0x02

/-- `CLOSE_REASON_FAILED` -/
def closeReasonFailed : UInt8 := 0x02

/-- SRCLINE: prov.c:1221-1242, 521-528 -/
def closeLink (s : ProvLink) (bufs : ProvBufs) (err reason : UInt8) : ProvLink :=
  let s := (provSendAdv s bufs.msg [provFailed, err]).2
  let s := bearerCtlSend { s with rx := { s.rx with seg := 0 } } bufs.ctl linkClose [reason]
  { s with linkActive := false }

/-- Up to the acknowledgement; the type and the length of the PDU are looked at after it.
SRCLINE: prov.c:1372-1387 -/
def provMsgRecv (s : ProvLink) (bufs : ProvBufs) : ProvLink :=
  let msg := readBytes s.rx.data 0 s.rx.len
  if ¬ btMeshFcsCheck msg s.rx.fcs then s
  else
    let s := genProvAckSend s bufs.ack s.rx.id
    { s with rx := { s.rx with prevId := s.rx.id, id := 0 }, accepted := s.accepted ++ [msg] }

/-- `XACT_SEG_RECV` -/
def xactSegRecv (seg : BitVec 8) (i : ℕ) : BitVec 8 := seg &&& ~~~ BitVec.twoPow 8 i

/-- A segment that is taken. SRCLINE: prov.c:1458-1466 -/
def provSegTake (s : ProvLink) (bufs : ProvBufs) (seg pos : ℕ) (body : List UInt8) : ProvLink :=
  let s := { s with rx := { s.rx with data := writeBytes s.rx.data pos body, seg := xactSegRecv s.rx.seg seg } }
  if s.rx.seg = 0 then provMsgRecv s bufs else s

/-- The position of the first segment is not looked at. SRCLINE: prov.c:1413-1467 -/
def genProvCont (s : ProvLink) (bufs : ProvBufs) (xactId gpc : UInt8) (body : List UInt8) : ProvLink :=
  let seg := gpc.toNat / 4
  if s.rx.seg = 0 ∧ s.rx.prevId = xactId then genProvAckSend s bufs.ack xactId
  else if xactId ≠ s.rx.id then s
  else if s.rx.lastSeg < seg then closeLink s bufs provErrNvalFmt closeReasonFailed
  else if seg = s.rx.lastSeg ∧
      ((s.rx.len : ℤ) - 20 - 23 * ((s.rx.lastSeg : ℤ) - 1)) % 256 ≠ body.length then
    closeLink s bufs provErrNvalFmt closeReasonFailed
  else if ¬ s.rx.seg.getLsbD seg then s
  else provSegTake s bufs seg (startPayloadMax + (seg - 1) * contPayloadMax) body

/-- SRCLINE: prov.c:1469-1482 -/
def genProvAck (s : ProvLink) (xactId : UInt8) : ProvLink :=
  if s.txBuf = [] then s else if xactId = s.txId then s.clearTx else s

/-- `size` is that of the receive buffer. SRCLINE: prov.c:1484-1540 -/
def genProvStart (size : ℕ) (s : ProvLink) (bufs : ProvBufs) (xactId gpc : UInt8) (body : List UInt8) : ProvLink :=
  if s.rx.seg ≠ 0 then s
  else if s.rx.prevId = xactId then genProvAckSend s bufs.ack xactId
  else
    let len := beVal (body.take 2)
    let last := gpc.toNat / 4
    let s := { s with rx := { s.rx with len := len, id := xactId, fcs := body.getD 2 0 } }
    if len < 1 then closeLink s bufs provErrNvalFmt closeReasonFailed
    else if size < len then closeLink s bufs provErrNvalFmt closeReasonFailed
    else if 0 < last ∧ len ≤ 20 then closeLink s bufs provErrNvalFmt closeReasonFailed
    else
      let s := { s with rx := { s.rx with seg := BitVec.ofNat 8 (2 ^ (last + 1) - 1), lastSeg := last } }
      provSegTake s bufs 0 0 (body.drop 3)

/-- `uuid` is that of the device. SRCLINE: prov.c:1288-1324 -/
def linkOpen (uuid : List UInt8) (s : ProvLink) (bufs : ProvBufs) (linkId : ℕ) (body : List UInt8) : ProvLink :=
  if body.length < 16 then s
  else if s.linkActive then s
  else if body.take 16 ≠ uuid then s
  else bearerCtlSend { s with id := linkId, linkActive := true, rx := { s.rx with len := 0 } } bufs.ctl linkAck []

/-- SRCLINE: prov.c:1337-1370 -/
def genProvCtl (uuid : List UInt8) (s : ProvLink) (bufs : ProvBufs) (linkId : ℕ) (gpc : UInt8) (body : List UInt8) :
    ProvLink :=
  match gpc.toNat / 4 with
  | 0 => linkOpen uuid s bufs linkId body
  | 2 => if s.linkActive then resetLink s else s
  | _ => s

/-- What a device is set up with. -/
structure ProvConf where
  uuid : List UInt8
  size : ℕ
  deriving DecidableEq, Repr

/-- The last two bits of `gpc` say what it is. SRCLINE: prov.c:1542-1609 -/
def btMeshPbAdvRecv (c : ProvConf) (s : ProvLink) (bufs : ProvBufs) (buf : List UInt8) : ProvLink :=
  if buf.length < 6 then s
  else
    let linkId := beVal (buf.take 4)
    let xactId := buf.getD 4 0
    let gpc := buf.getD 5 0
    let body := buf.drop 6
    if s.linkActive ∧ s.id ≠ linkId then s
    else
      match gpc.toNat % 4 with
      | 0 => if body.length < 3 ∨ ¬ s.linkActive then s else genProvStart c.size s bufs xactId gpc body
      | 1 => if ¬ s.linkActive then s else genProvAck s xactId
      | 2 => if ¬ s.linkActive then s else genProvCont s bufs xactId gpc body
      | _ => genProvCtl c.uuid s bufs linkId gpc body

/-! ## Two nodes on the air -/

/-- What happens between the node that acts and the other one. `send` is a PDU of the upper layer, `air` an
advertisement of the current transaction that reaches the other node, `ackOut` an acknowledgement that is sent and
may get lost, `foreign` an advertisement of another link. -/
inductive ProvAct
  | send (bufs : ℕ) (msg : List UInt8)
  | air (i : ℕ) (bufs : ProvBufs)
  | ackOut (received : Bool) (bufs : ProvBufs)
  | foreign (frame : List UInt8) (bufs : ProvBufs)
  deriving DecidableEq, Repr

/-- `ack_complete`. SRCLINE: prov.c:311-315 -/
def ackComplete (s : ProvLink) (cb : Bool) : ProvLink := if cb then { s with pendingAck := xactNval } else s

/-- `p` acts. A PDU that cannot be sent is not part of a run. -/
def provAct (c : ProvConf) (p q : ProvLink) : ProvAct → Option (ProvLink × ProvLink)
  | .send bufs msg =>
    match provSendAdv p bufs msg with
    | (some _, _) => none
    | (none, p) => some ({ p with sent := p.sent ++ [msg] }, q)
  | .air i bufs => (p.txBuf[i]?).map fun frame => (p, btMeshPbAdvRecv c q bufs frame)
  | .ackOut received bufs =>
    match p.acks with
    | [] => none
    | (frame, cb) :: acks =>
      some (ackComplete { p with acks := acks } cb, if received then btMeshPbAdvRecv c q bufs frame else q)
  | .foreign frame bufs => if beVal (frame.take 4) = p.id then none else some (btMeshPbAdvRecv c p bufs frame, q)

/-- The `Bool` says that the second node acts. -/
def provStep (c : ProvConf) (s : ProvLink × ProvLink) (a : Bool × ProvAct) : Option (ProvLink × ProvLink) :=
  if a.1 then (provAct c s.2 s.1 a.2).map Prod.swap else provAct c s.1 s.2 a.2

/-- A link that was just opened; `data` is what its buffer holds. -/
def provOpened (linkId : ℕ) (data : Mem) : ProvLink where
  linkActive := true
  id := linkId
  rx := ⟨0, xactNval, 0, 0, 0, data, 0⟩
  txId := 0
  txBuf := [provFrame linkId 0 (gpcCtl linkAck) []]
  pendingAck := xactNval
  acks := []
  accepted := []
  sent := []

end GenieSdk.Model
