import GenieSdk.Lib.Bytes
import GenieSdk.Model.MeshNet

/-!
# Segmentation and reassembly

`transport.c`: `send_seg` cuts an SDU into segments of 12 bytes and keeps them until they are
acknowledged, `trans_seg` collects segments and hands complete SDUs on. What the stack around it
decides (whether there is a buffer, whether a Friend queue takes a PDU, whether an address is a local
one) is a parameter of a call.

`acks` and `handed` of the receiver are read by no function: the acknowledgements that were sent, and
the calls of `sdu_recv` and `ctl_recv`.
-/

set_option autoImplicit false

namespace GenieSdk.Model

open GenieSdk.Lib

/-- `BT_MESH_ADDR_IS_UNICAST` -/
def addrIsUnicast (addr : ℕ) : Bool := addr ≠ 0 ∧ addr < 0x8000

/-- `SEQ_AUTH`; a sequence number has 24 bits. -/
def seqAuthOf (ivIndex seq : ℕ) : ℕ := ivIndex * 2 ^ 24 + seq

/-! ## Sending -/

/-- `BT_MESH_TX_SEG_COUNT` -/
def btMeshTxSegCount : ℕ := 8

/-- `BT_MESH_TX_SDU_MAX` -/
def btMeshTxSduMax : ℕ := btMeshTxSegCount * 12

/-- `SEG_RETRANSMIT_ATTEMPTS` -/
def segRetransmitAttempts : ℕ := 1

/-- A segment that waits for its acknowledgement. -/
structure SegBuf where
  attempts : ℕ
  data : List UInt8
  deriving DecidableEq, Repr

/-- `struct seg_tx` without the keys. `cb` says that a callback is set, `retransmit` that the timer
runs. -/
structure SegTx where
  seg : List (Option SegBuf)
  seqAuth : ℕ
  dst : ℕ
  segN : ℕ
  nackCount : ℕ
  cb : Bool
  retransmit : Bool
  deriving DecidableEq, Repr

/-- A context at start-up. -/
def SegTx.zero : SegTx := ⟨List.replicate btMeshTxSegCount none, 0, 0, 0, 0, false, false⟩

/-- The sending side of a node. -/
structure TransTx where
  node : MeshNode
  ctxs : List SegTx
  deriving DecidableEq, Repr

/-- The `i`-th context. -/
def TransTx.ctx (s : TransTx) (i : ℕ) : SegTx := s.ctxs.getD i SegTx.zero

/-- The `i`-th context is changed. -/
def TransTx.setCtx (s : TransTx) (i : ℕ) (c : SegTx) : TransTx := { s with ctxs := s.ctxs.set i c }

/-- SRCLINE: transport.c:151-164 -/
def btMeshTxInProgress (s : TransTx) : Bool := s.ctxs.any fun c => c.nackCount ≠ 0

/-- `CONFIG_BT_MESH_IV_UPDATE_TEST`, and `bt_mesh_fixed_group_match` or `bt_mesh_elem_find`. -/
structure TxCfg where
  ivUpdateTest : Bool
  isLocal : ℕ → Bool

/-- SRCLINE: transport.c:166-208 -/
def segTxReset (cfg : TxCfg) (s : TransTx) (i : ℕ) (now : ℤ) : TransTx :=
  let c := { s.ctx i with retransmit := false, cb := false, seqAuth := 0, dst := 0 }
  if c.nackCount = 0 then s.setCtx i c
  else
    let s := s.setCtx i { c with
      seg := c.seg.mapIdx fun o b => if o ≤ c.segN then none else b
      nackCount := 0 }
    if s.node.net.pendingUpdate then
      let m := { s.node.net with pendingUpdate := false }
      { s with node := { s.node with
        net := (btMeshNetIvUpdate cfg.ivUpdateTest m m.ivIndex false now (btMeshTxInProgress s)).2 } }
    else s

/-- The callback of the SDU is called first. SRCLINE: transport.c:210-218 -/
def segTxComplete (cfg : TxCfg) (s : TransTx) (i : ℕ) (now : ℤ) : TransTx := segTxReset cfg s i now

/-- The end callback of a segment. SRCLINE: transport.c:230-244 -/
def segSent (cfg : TxCfg) (s : TransTx) (i : ℕ) (now : ℤ) : TransTx :=
  if ¬ addrIsUnicast (s.ctx i).dst then segTxComplete cfg s i now
  else s.setCtx i { s.ctx i with retransmit := true }

/-- How the stack behaves at one segment: `bt_mesh_adv_create` has a buffer, in how many Friend queues
`bt_mesh_friend_enqueue_tx` puts the PDU, the room for the MIC, encryption succeeds,
`bt_mesh_proxy_relay` sends it to a proxy client. -/
structure SegEnv where
  buf : Bool
  lpns : ℕ
  tailroom : ℕ
  encrypted : Bool
  proxy : Bool
  deriving DecidableEq, Repr

/-- `bt_mesh_friend_enqueue_tx` has matched an LPN. -/
def SegEnv.friend (e : SegEnv) : Bool := 0 < e.lpns

/-- Each copy in a Friend queue takes a sequence number. SRCLINE: friend.c:1255-1306, 1435-1466 -/
def btMeshFriendEnqueueTx (s : TransTx) (lpns : ℕ) : TransTx := { s with node := nextSeq^[lpns] s.node }

/-- Whether the segment was sent. Callbacks run at once if only the proxy or the node itself gets the
PDU. SRCLINE: net.c:970-1051 -/
def btMeshNetSend (cfg : TxCfg) (s : TransTx) (i dst ttl : ℕ) (env : SegEnv) (now : ℤ) :
    Bool × TransTx :=
  match btMeshNetEncode s.node false env.tailroom with
  | none => (false, s)
  | some node =>
    let s := { s with node := node }
    if ¬ env.encrypted then (false, s)
    else if ttl ≠ 1 ∧ env.proxy ∧ addrIsUnicast dst then (true, segSent cfg s i now)
    else if cfg.isLocal dst then (true, segSent cfg s i now)
    -- the advertiser calls back later
    else (true, s)

/-- `SEG_HDR` -/
def segHdrByte (devKey : Bool) (aid : ℕ) : ℕ := if devKey then 0x80 else 0x80 + 0x40 + aid % 64

/-- An SDU to send. -/
structure SegSdu where
  dst : ℕ
  ttl : ℕ
  devKey : Bool
  aid : ℕ
  aszmic : Bool
  sdu : List UInt8
  deriving DecidableEq, Repr

/-- The last segment index. -/
def SegSdu.segN (p : SegSdu) : ℕ := (p.sdu.length - 1) / 12

/-- The bytes of one segment. -/
def SegSdu.chunk (p : SegSdu) (segO : ℕ) : List UInt8 := (p.sdu.drop (segO * 12)).take 12

/-- SRCLINE: transport.c:384-392 -/
def SegSdu.segPdu (p : SegSdu) (seqZero segO : ℕ) : List UInt8 :=
  [UInt8.ofNat (segHdrByte p.devKey p.aid),
    UInt8.ofNat ((if p.aszmic then 128 else 0) + seqZero / 64),
    UInt8.ofNat (seqZero % 64 * 4 + segO / 8), UInt8.ofNat (segO % 8 * 32 + p.segN)] ++ p.chunk segO

inductive SendRet
  | ok
  | inval
  | msgsize
  | busy
  | nobufs
  | netErr
  deriving DecidableEq, Repr

/-- The loop over the segments; with each segment that is handed on goes its sequence number, that of
the network PDU if there is one.
SRCLINE: transport.c:363-433 -/
def sendSegLoop (cfg : TxCfg) (p : SegSdu) (env : ℕ → SegEnv) (now : ℤ) (seqZero i : ℕ) :
    List ℕ → TransTx → SendRet × List (ℕ × List UInt8) × TransTx
  | [], s => (.ok, [], s)
  | segO :: rest, s =>
    if ¬ (env segO).buf then (.nobufs, [], segTxReset cfg s i now)
    else
      let pdu := p.segPdu seqZero segO
      let queued := (s.node.net.seq, pdu)
      let c := s.ctx i
      let s := s.setCtx i { c with seg := c.seg.set segO (some ⟨segRetransmitAttempts, pdu⟩) }
      let s := btMeshFriendEnqueueTx s (env segO).lpns
      if (env segO).friend ∧ addrIsUnicast p.dst then (.ok, [queued], s)
      else
        let handed := (s.node.net.seq, pdu)
        match btMeshNetSend cfg s i p.dst p.ttl (env segO) now with
        | (false, s) => (.netErr, [handed], segTxReset cfg s i now)
        | (true, s) =>
          let (ret, hs, s) := sendSegLoop cfg p env now seqZero i rest s
          (ret, handed :: hs, s)

/-- What is returned, what was handed to `bt_mesh_net_send` or the Friend queue, and the state.
SRCLINE: transport.c:301-441 -/
def sendSeg (cfg : TxCfg) (s : TransTx) (p : SegSdu) (env : ℕ → SegEnv) (now : ℤ) :
    SendRet × List (ℕ × List UInt8) × TransTx :=
  if p.sdu.length < 1 then (.inval, [], s)
  else if btMeshTxSduMax < p.sdu.length then (.msgsize, [], s)
  else
    match s.ctxs.findIdx? fun c => c.nackCount = 0 with
    | none => (.busy, [], s)
    | some i =>
      let seqAuth := seqAuthOf s.node.net.iviTx.toNat s.node.net.seq
      let s := s.setCtx i { s.ctx i with
        dst := p.dst, segN := p.segN, nackCount := p.segN + 1, seqAuth := seqAuth, cb := true }
      sendSegLoop cfg p env now (seqAuth % 2 ^ 13) i (List.range (p.segN + 1)) s

/-- How the stack behaves at one resend: the segment is still being advertised, it is decrypted, it is
encrypted again. -/
structure ResendEnv where
  busy : Bool
  decrypted : Bool
  encrypted : Bool
  deriving DecidableEq, Repr

/-- The loop over the segments. SRCLINE: transport.c:255-291 -/
def sendUnackedLoop (cfg : TxCfg) (env : ℕ → ResendEnv) (now : ℤ) (i : ℕ) :
    List ℕ → TransTx → TransTx
  | [], s => s
  | segO :: rest, s =>
    match (s.ctx i).seg.getD segO none with
    | none => sendUnackedLoop cfg env now i rest s
    | some b =>
      if (env segO).busy then sendUnackedLoop cfg env now i rest s
      else if b.attempts = 0 then segTxComplete cfg s i now
      else
        let c := s.ctx i
        let s := s.setCtx i { c with
          seg := c.seg.set segO (some { b with attempts := b.attempts - 1 }) }
        match btMeshNetResend cfg.ivUpdateTest s.node (env segO).decrypted (env segO).encrypted now
            (btMeshTxInProgress s) with
        | (false, node) => segTxComplete cfg { s with node := node } i now
        | (true, node) => sendUnackedLoop cfg env now i rest { s with node := node }

def segTxSendUnacked (cfg : TxCfg) (s : TransTx) (env : ℕ → ResendEnv) (now : ℤ) (i : ℕ) : TransTx :=
  sendUnackedLoop cfg env now i (List.range ((s.ctx i).segN + 1)) s

/-- The context, and the contexts afterwards: an acknowledgement by a Friend sets the destination.
SRCLINE: transport.c:770-804 -/
def segTxLookup (seqZero : ℕ) (obo : Bool) (addr : ℕ) : List SegTx → Option ℕ × List SegTx
  | [] => (none, [])
  | c :: cs =>
    let next :=
      let (i, cs) := segTxLookup seqZero obo addr cs
      (i.map (· + 1), c :: cs)
    if c.seqAuth % 2 ^ 13 ≠ seqZero then next
    else if c.dst = addr then (some 0, c :: cs)
    else if obo ∧ c.nackCount = c.segN + 1 then (some 0, { c with dst := addr } :: cs)
    else next

/-- One bit of an acknowledgement. SRCLINE: transport.c:895-906 -/
def ackSeg (ack : ℕ) (c : SegTx) (segO : ℕ) : SegTx :=
  if ack.testBit segO ∧ c.seg.getD segO none ≠ none then
    { c with seg := c.seg.set segO none, nackCount := (c.nackCount + 255) % 256 }
  else c

/-- `find_msb_set(ack) - 1` is the logarithm. SRCLINE: transport.c:840-919 -/
def transAck (cfg : TxCfg) (s : TransTx) (src : ℕ) (friendMatch : Bool) (buf : List UInt8)
    (env : ℕ → ResendEnv) (now : ℤ) : TransTx :=
  if buf.length < 6 then s
  else
    let word := leVal (buf.take 2).reverse
    let obo : Bool := 2 ^ 15 ≤ word
    let seqZero := word / 4 % 2 ^ 13
    if friendMatch then s
    else
      let ack := leVal ((buf.drop 2).take 4).reverse
      match segTxLookup seqZero obo src s.ctxs with
      | (none, ctxs) => { s with ctxs := ctxs }
      | (some i, ctxs) =>
        let s := { s with ctxs := ctxs }
        if ack = 0 then segTxComplete cfg s i now
        else if (s.ctx i).segN < ack.log2 then s
        else
          let s := s.setCtx i
            ((List.range 32).foldl (ackSeg ack) { s.ctx i with retransmit := false })
          if (s.ctx i).nackCount ≠ 0 then segTxSendUnacked cfg s env now i
          else segTxComplete cfg s i now

/-- What happens to the sending side. -/
inductive SegTxEvent
  | sendSeg (p : SegSdu) (env : ℕ → SegEnv) (now : ℤ)
  | sent (i : ℕ) (now : ℤ)
  | ack (src : ℕ) (friendMatch : Bool) (buf : List UInt8) (env : ℕ → ResendEnv) (now : ℤ)
  | retransmit (i : ℕ) (env : ℕ → ResendEnv) (now : ℤ)

def segTxStep (cfg : TxCfg) (s : TransTx) : SegTxEvent → Option TransTx
  | .sendSeg p env now => some (sendSeg cfg s p env now).2.2
  | .sent i now => if i < s.ctxs.length then some (segSent cfg s i now) else none
  | .ack src friendMatch buf env now => some (transAck cfg s src friendMatch buf env now)
  | .retransmit i env now =>
    if (s.ctx i).retransmit then
      some (segTxSendUnacked cfg (s.setCtx i { s.ctx i with retransmit := false }) env now i)
    else none

/-- `count` is `CONFIG_BT_MESH_TX_SEG_MSG_COUNT`. -/
def txInit (node : MeshNode) (count : ℕ) : TransTx := ⟨node, List.replicate count SegTx.zero⟩

/-! ## Receiving -/

/-- `struct bt_mesh_net_rx`, what the transport layer reads of it. -/
structure NetRx where
  src : ℕ
  dst : ℕ
  seq : ℕ
  oldIv : Bool
  ctl : Bool
  localMatch : Bool
  friendMatch : Bool
  sendTtl : ℕ
  deriving DecidableEq, Repr

/-- `struct seg_rx` -/
structure SegRx where
  seqAuth : ℕ
  segN : ℕ
  ctl : Bool
  inUse : Bool
  obo : Bool
  hdr : UInt8
  ttl : ℕ
  src : ℕ
  dst : ℕ
  block : BitVec 32
  last : ℕ
  ack : Bool
  bufLen : ℕ
  bufData : Mem

/-- A context at start-up. -/
def SegRx.zero : SegRx := ⟨0, 0, false, false, false, 0, 0, 0, 0, 0, 0, false, 0, fun _ => 0⟩

/-- An acknowledgement. -/
structure SegAck where
  dst : ℕ
  ttl : ℕ
  seqZero : ℕ
  block : BitVec 32
  obo : Bool
  deriving DecidableEq, Repr

/-- What is handed to `sdu_recv` (or `ctl_recv`), with the SeqAuth of the message. -/
structure Handed where
  net : NetRx
  hdr : UInt8
  aszmic : Bool
  buf : List UInt8
  seqAuth : ℕ
  deriving DecidableEq, Repr

/-- The receiving side of a node. -/
structure TransRx where
  ivIndex : UInt32
  rpl : List Rpl
  rplIndex : ℕ
  segRx : List SegRx
  acks : List SegAck
  handed : List Handed

/-- `CONFIG_BT_MESH_RX_SDU_MAX`, `bt_mesh_lpn_established()` -/
structure RxCfg where
  rxSduMax : ℕ
  lpnEstablished : Bool
  deriving DecidableEq, Repr

/-- `BT_MESH_NET_IVI_RX` -/
def TransRx.iviRx (s : TransRx) (net : NetRx) : UInt32 := s.ivIndex - (if net.oldIv then 1 else 0)

/-- The loop over the slots; no result if none is empty or for the source. -/
def rplScan (net : NetRx) : List Rpl → Option (Bool × List Rpl)
  | [] => none
  | r :: rs =>
    if r.src = 0 then some (false, ⟨net.src, net.oldIv, net.seq⟩ :: rs)
    else if r.src = net.src then
      if net.oldIv ∧ ¬ r.oldIv then some (true, r :: rs)
      else if (¬ net.oldIv ∧ r.oldIv) ∨ r.seq < net.seq then
        some (false, { r with seq := net.seq, oldIv := net.oldIv } :: rs)
      else some (true, r :: rs)
    else (rplScan net rs).map fun (b, rs) => (b, r :: rs)

/-- If the list is full, a slot is taken over. SRCLINE: transport.c:592-650 -/
def isReplay (s : TransRx) (net : NetRx) : Bool × TransRx :=
  match rplScan net s.rpl with
  | some (b, rpl) => (b, { s with rpl := rpl })
  | none =>
    (false, { s with
      rpl := s.rpl.set s.rplIndex ⟨net.src, net.oldIv, net.seq⟩
      rplIndex := (s.rplIndex + 1) % s.rpl.length })

/-- SRCLINE: transport.c:1161-1201 -/
def sendAck (cfg : RxCfg) (s : TransRx) (src dst ttl seqAuth : ℕ) (block : BitVec 32) (obo : Bool) :
    TransRx :=
  if cfg.lpnEstablished then s
  else if ¬ addrIsUnicast src then s
  else { s with acks := s.acks ++ [⟨dst, ttl, seqAuth % 2 ^ 13, block, obo⟩] }

/-- `BLOCK_COMPLETE` -/
def blockComplete (segN : ℕ) : BitVec 32 := BitVec.ofNat 32 (2 ^ (segN + 1) - 1)

/-- SRCLINE: transport.c:1203-1223 -/
def segRxReset (rx : SegRx) : SegRx := { rx with ack := false, inUse := false }

def segLen (ctl : Bool) : ℕ := if ctl then 8 else 12

def sduLenIsOk (cfg : RxCfg) (ctl : Bool) (segN : ℕ) : Bool := segN * segLen ctl + 1 ≤ cfg.rxSduMax

/-- The context that is found, and the contexts afterwards. SRCLINE: transport.c:1263-1298 -/
def segRxFind (net : NetRx) (seqAuth : ℕ) : List SegRx → Option ℕ × List SegRx
  | [] => (none, [])
  | rx :: rest =>
    let next :=
      let (i, rest) := segRxFind net seqAuth rest
      (i.map (· + 1), rx :: rest)
    if rx.src ≠ net.src ∨ rx.dst ≠ net.dst then next
    else if rx.seqAuth = seqAuth then (some 0, rx :: rest)
    else if rx.inUse then (none, segRxReset rx :: rest)
    else next

/-- The header of a segment. -/
structure SegHdr where
  hdr : UInt8
  aszmic : Bool
  seqZero : ℕ
  segO : ℕ
  segN : ℕ
  deriving DecidableEq, Repr

/-- SRCLINE: transport.c:1380-1385 -/
def segHdrOf (buf : List UInt8) : SegHdr :=
  let word := leVal ((buf.drop 1).take 2).reverse
  let last := (buf.getD 3 0).toNat
  { hdr := buf.getD 0 0
    aszmic := 128 ≤ (buf.getD 1 0).toNat
    seqZero := word / 4 % 2 ^ 13
    segO := word % 4 * 8 + last / 32
    segN := last % 32 }

/-- SRCLINE: transport.c:1300-1322 -/
def segRxIsValid (rx : SegRx) (net : NetRx) (h : SegHdr) : Bool :=
  !(rx.hdr ≠ h.hdr ∨ rx.segN ≠ h.segN) && !(rx.src ≠ net.src ∨ rx.dst ≠ net.dst) &&
    !(rx.ctl ≠ net.ctl)

/-- SRCLINE: transport.c:1324-1358, 1452 -/
def segRxAlloc (net : NetRx) (h : SegHdr) (seqAuth : ℕ) : List SegRx → Option (ℕ × List SegRx)
  | [] => none
  | rx :: rest =>
    if rx.inUse then (segRxAlloc net h seqAuth rest).map fun (i, rest) => (i + 1, rx :: rest)
    else
      some (0, { rx with
        inUse := true, bufLen := 0, ctl := net.ctl, seqAuth := seqAuth, segN := h.segN, hdr := h.hdr
        ttl := net.sendTtl, src := net.src, dst := net.dst, block := 0
        obo := net.friendMatch } :: rest)

inductive RecvRet
  | partialSdu
  | handed
  | ignored
  | inval
  | already
  | msgsize
  | nomem
  deriving DecidableEq, Repr

/-- The `i`-th context. -/
def TransRx.rx (s : TransRx) (i : ℕ) : SegRx := s.segRx.getD i SegRx.zero

/-- The `i`-th context is changed. -/
def TransRx.setRx (s : TransRx) (i : ℕ) (rx : SegRx) : TransRx :=
  { s with segRx := s.segRx.set i rx }

/-- The bytes of a segment are stored. SRCLINE: transport.c:1490-1506 -/
def segStored (cfg : RxCfg) (h : SegHdr) (payload : List UInt8) (now : ℕ) (rx : SegRx) : SegRx :=
  { rx with
    last := now
    ack := rx.ack || !cfg.lpnEstablished
    bufData := writeBytes rx.bufData (h.segO * segLen rx.ctl) payload
    block := rx.block ||| BitVec.ofNat 32 (2 ^ h.segO) }

/-- A complete SDU is acknowledged and handed on. SRCLINE: transport.c:1526-1549 -/
def segHand (cfg : RxCfg) (s : TransRx) (net : NetRx) (h : SegHdr) (i : ℕ) (rx : SegRx) : TransRx :=
  let net := { net with seq := if net.friendMatch then net.seq else rx.seqAuth % 2 ^ 24 }
  let s := sendAck cfg s net.dst net.src net.sendTtl rx.seqAuth rx.block rx.obo
  let s := { s with
    handed := s.handed ++
      [Handed.mk net h.hdr h.aszmic (readBytes rx.bufData 0 rx.bufLen) rx.seqAuth] }
  s.setRx i (segRxReset rx)

/-- `is_replay`, which is asked for local elements only. -/
def replayed (s : TransRx) (net : NetRx) : Bool × TransRx :=
  if net.localMatch then isReplay s net else (false, s)

/-- SRCLINE: transport.c:1490-1549 -/
def segStore (cfg : RxCfg) (s : TransRx) (net : NetRx) (h : SegHdr) (i : ℕ) (payload : List UInt8)
    (now : ℕ) : RecvRet × TransRx :=
  let old := s.rx i
  let rx := segStored cfg h payload now old
  let s := s.setRx i rx
  if rx.block ≠ blockComplete h.segN then (.partialSdu, s)
  else
    match replayed s net with
    -- the bit was not set before
    | (true, s) => (.inval, s.setRx i { rx with block := old.block })
    | (false, s) => (.handed, segHand cfg s net h i rx)

/-- A segment of the `i`-th context. SRCLINE: transport.c:1454-1488 -/
def segReceive (cfg : RxCfg) (s : TransRx) (net : NetRx) (h : SegHdr) (i : ℕ) (payload : List UInt8)
    (now : ℕ) : RecvRet × TransRx :=
  let rx := s.rx i
  if rx.block.getLsbD h.segO then (.already, s)
  else if h.segO = h.segN then
    let rx := { rx with bufLen := h.segN * segLen rx.ctl + payload.length }
    let s := s.setRx i rx
    if cfg.rxSduMax < rx.bufLen then
      (.msgsize, (sendAck cfg s net.dst net.src net.sendTtl rx.seqAuth 0 rx.obo).setRx i
        (segRxReset rx))
    else segStore cfg s net h i payload now
  else if payload.length ≠ segLen rx.ctl then (.inval, s)
  else segStore cfg s net h i payload now

/-- SRCLINE: transport.c:1360-1550 -/
def transSeg (cfg : RxCfg) (s : TransRx) (net : NetRx) (buf : List UInt8) (now : ℕ) :
    RecvRet × TransRx :=
  if buf.length < 5 then (.inval, s)
  else
    let h := segHdrOf buf
    let payload := buf.drop 4
    if h.segN < h.segO then (.inval, s)
    else
      let seqAuth := seqAuthOf (s.iviRx net).toNat (net.seq / 2 ^ 13 * 2 ^ 13 + h.seqZero)
      match segRxFind net seqAuth s.segRx with
      | (some i, segRx) =>
        let s := { s with segRx := segRx }
        if ¬ segRxIsValid (s.rx i) net h then (.inval, s)
        else if (s.rx i).inUse then segReceive cfg s net h i payload now
        else if (s.rx i).block = blockComplete (s.rx i).segN then
          (.already, sendAck cfg s net.dst net.src net.sendTtl seqAuth (s.rx i).block (s.rx i).obo)
        else (.inval, s)
      | (none, segRx) =>
        let s := { s with segRx := segRx }
        if ¬ sduLenIsOk cfg net.ctl h.segN then
          (.msgsize, sendAck cfg s net.dst net.src net.sendTtl seqAuth 0 net.friendMatch)
        else
          match segRxAlloc net h seqAuth s.segRx with
          | none => (.nomem, s)
          | some (i, segRx) => segReceive cfg { s with segRx := segRx } net h i payload now

/-- SRCLINE: transport.c:1042-1078 -/
def transUnseg (s : TransRx) (net : NetRx) (buf : List UInt8) : RecvRet × TransRx :=
  if buf.length < 1 then (.inval, s)
  else
    match replayed s net with
    | (true, s) => (.inval, s)
    | (false, s) =>
      if ¬ net.ctl ∧ ¬ net.localMatch ∧ ¬ net.friendMatch then (.ignored, s)
      else
        (.handed, { s with
          handed := s.handed ++ [Handed.mk net (buf.getD 0 0) false (buf.drop 1)
            (seqAuthOf (s.iviRx net).toNat net.seq)] })

/-- The acknowledgement timer of the `i`-th context. SRCLINE: transport.c:1225-1244 -/
def segAck (cfg : RxCfg) (s : TransRx) (i : ℕ) (now : ℕ) : TransRx :=
  let rx := s.rx i
  if 60 * 1000 < (now + 2 ^ 32 - rx.last) % 2 ^ 32 then
    (sendAck cfg s rx.dst rx.src rx.ttl rx.seqAuth 0 rx.obo).setRx i (segRxReset rx)
  else
    (sendAck cfg s rx.dst rx.src rx.ttl rx.seqAuth rx.block rx.obo).setRx i { rx with ack := true }

/-- A PDU arrives, or the timer of a context expires. -/
inductive RxEvent
  | pdu (net : NetRx) (buf : List UInt8) (now : ℕ)
  | ack (i now : ℕ)
  deriving DecidableEq, Repr

/-- The first bit of a PDU says whether it is segmented. Segments must match a local element or an
LPN. SRCLINE: transport.c:1597-1612 -/
def transRecv (cfg : RxCfg) (s : TransRx) (net : NetRx) (buf : List UInt8) (now : ℕ) :
    RecvRet × TransRx :=
  if 128 ≤ (buf.getD 0 0).toNat then
    if ¬ net.localMatch ∧ ¬ net.friendMatch then (.ignored, s) else transSeg cfg s net buf now
  else transUnseg s net buf

def rxStep (cfg : RxCfg) (s : TransRx) : RxEvent → Option TransRx
  | .pdu net buf now => some (transRecv cfg s net buf now).2
  | .ack i now => if (s.rx i).ack then some (segAck cfg s i now) else none

/-- At start-up. `crpl` and `count` are `CONFIG_BT_MESH_CRPL` and `CONFIG_BT_MESH_RX_SEG_MSG_COUNT`. -/
def rxInit (ivIndex : UInt32) (crpl count : ℕ) : TransRx where
  ivIndex := ivIndex
  rpl := List.replicate crpl Rpl.zero
  rplIndex := 0
  segRx := List.replicate count SegRx.zero
  acks := []
  handed := []

end GenieSdk.Model
