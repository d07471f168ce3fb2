import GenieSdk.Model.MeshTransport

/-!
# Messages, segments and callbacks

The contexts of `transport.c` with the advertiser, which calls back with a pointer to the context
for every segment it was given, and with a record of whom the end callbacks were for. The callback
of a message is called by `seg_tx_complete`, which then clears `cb`; nothing else clears it but a
`send_seg` that fails. `owner`, `msgs` and `log` are read by no function.
-/

set_option autoImplicit false

namespace GenieSdk.Model

open GenieSdk.Lib

/-- A message that has taken a context. -/
structure SentMsg where
  dst : ℕ
  segN : ℕ
  seqAuth : ℕ
  deriving DecidableEq, Repr

/-- A segment in `adv_queue`, with the context that its callback gets. -/
structure AdvSeg where
  ctx : ℕ
  msg : ℕ
  segO : ℕ
  deriving DecidableEq, Repr

/-- What made `seg_tx_complete` run: the end callback of a segment, an acknowledgement, the timer of
the context while it was that of a message. -/
inductive SegCause
  | sent (msg segO : ℕ)
  | ack (seqZero addr : ℕ)
  | retransmit (msg : ℕ)
  deriving DecidableEq, Repr

/-- A segment is out, an acknowledgement is taken for a message, the end callback of a message is
called. -/
inductive SegEvent
  | out (msg segO : ℕ)
  | ack (msg : ℕ) (obo : Bool) (addr : ℕ)
  | ended (msg : ℕ) (cause : SegCause)
  deriving DecidableEq, Repr

/-- The sending side with its history; `owner` is the message that last took each context. -/
structure SegHistory where
  tx : TransTx
  owner : List ℕ
  msgs : List SentMsg
  adv : List AdvSeg
  log : List SegEvent
  deriving DecidableEq, Repr

def SegHistory.ownerOf (h : SegHistory) (i : ℕ) : ℕ := h.owner.getD i 0

/-- The end callback of the message in a context, if this step has called it. -/
def SegHistory.endedBy (h : SegHistory) (tx : TransTx) (i : ℕ) (cause : SegCause) : List SegEvent :=
  if (h.tx.ctx i).cb ∧ ¬ (tx.ctx i).cb then [.ended (h.ownerOf i) cause] else []

/-! ## Sending -/

/-- A Friend takes the segment, and nobody else. -/
def onlyFriend (p : SegSdu) (env : SegEnv) : Bool := env.friend ∧ addrIsUnicast p.dst

/-- The segment goes to a proxy client or the node itself, and its callbacks run at once.
SRCLINE: net.c:996-1037 -/
def sentAtOnce (cfg : TxCfg) (p : SegSdu) (env : SegEnv) : Bool :=
  ¬ onlyFriend p env ∧ ((p.ttl ≠ 1 ∧ env.proxy ∧ addrIsUnicast p.dst) ∨ cfg.isLocal p.dst)

/-- The segment goes to the advertiser. SRCLINE: net.c:1038-1046 -/
def sentToAdv (cfg : TxCfg) (p : SegSdu) (env : SegEnv) : Bool :=
  ¬ onlyFriend p env ∧ ¬ sentAtOnce cfg p env ∧ p.ttl ≠ 1

/-- What the send shows of a message: the segments that are out at once, and the end callback, which
the first of them calls for a group or virtual address. -/
def sendLog (m : ℕ) (ended : Bool) : List ℕ → List SegEvent
  | [] => []
  | segO :: rest =>
    .out m segO :: ((if ended then [.ended m (.sent m segO)] else []) ++ rest.map (.out m))

/-- `send_seg` for a new message. -/
def SegHistory.send (cfg : TxCfg) (h : SegHistory) (p : SegSdu) (env : ℕ → SegEnv) (now : ℤ) :
    SegHistory :=
  let r := sendSeg cfg h.tx p env now
  if p.sdu.length < 1 ∨ btMeshTxSduMax < p.sdu.length then { h with tx := r.2.2 }
  else
    match h.tx.ctxs.findIdx? fun c => c.nackCount = 0 with
    | none => { h with tx := r.2.2 }
    | some i =>
      let m := h.msgs.length
      let seqAuth := seqAuthOf h.tx.node.net.iviTx.toNat h.tx.node.net.seq
      let accepted := List.range (if r.1 = .netErr then r.2.1.length - 1 else r.2.1.length)
      { tx := r.2.2
        owner := h.owner.set i m
        msgs := h.msgs ++ [⟨p.dst, p.segN, seqAuth⟩]
        adv := h.adv ++ (accepted.filter fun o => sentToAdv cfg p (env o)).map (⟨i, m, ·⟩)
        log := h.log ++ sendLog m (r.1 = .ok ∧ ¬ (r.2.2.ctx i).cb)
          (accepted.filter fun o => sentAtOnce cfg p (env o)) }

/-! ## Events -/

/-- The OBO flag of an acknowledgement. -/
def ackObo (buf : List UInt8) : Bool := 2 ^ 15 ≤ leVal (buf.take 2).reverse

def ackSeqZero (buf : List UInt8) : ℕ := leVal (buf.take 2).reverse / 4 % 2 ^ 13

/-- The context that `trans_ack` takes. -/
def ackCtx (s : TransTx) (src : ℕ) (friendMatch : Bool) (buf : List UInt8) : Option ℕ :=
  if buf.length < 6 ∨ friendMatch then none
  else (segTxLookup (ackSeqZero buf) (ackObo buf) src s.ctxs).1

/-- What happens to the sending side. With an acknowledgement and a timer goes which segments
`bt_mesh_net_resend` puts into `adv_queue` again. -/
inductive SegAct
  | send (p : SegSdu) (env : ℕ → SegEnv) (now : ℤ)
  | sent (k : ℕ) (now : ℤ)
  | ack (src : ℕ) (friendMatch : Bool) (buf : List UInt8) (env : ℕ → ResendEnv) (again : List ℕ)
    (now : ℤ)
  | retransmit (i : ℕ) (env : ℕ → ResendEnv) (again : List ℕ) (now : ℤ)

/-- The end callback of the `k`-th segment at the advertiser. -/
def SegHistory.sent (cfg : TxCfg) (h : SegHistory) (k : ℕ) (e : AdvSeg) (now : ℤ) : SegHistory :=
  let tx := segSent cfg h.tx e.ctx now
  { h with
    tx := tx
    adv := h.adv.eraseIdx k
    log := h.log ++ .out e.msg e.segO :: h.endedBy tx e.ctx (.sent e.msg e.segO) }

def SegHistory.ack (cfg : TxCfg) (h : SegHistory) (src : ℕ) (friendMatch : Bool)
    (buf : List UInt8) (env : ℕ → ResendEnv) (again : List ℕ) (now : ℤ) : SegHistory :=
  let tx := transAck cfg h.tx src friendMatch buf env now
  match ackCtx h.tx src friendMatch buf with
  | none => { h with tx := tx }
  | some i =>
    { h with
      tx := tx
      adv := h.adv ++ again.map (⟨i, h.ownerOf i, ·⟩)
      log := h.log ++ (if (h.tx.ctx i).cb then [.ack (h.ownerOf i) (ackObo buf) src] else []) ++
        h.endedBy tx i (.ack (ackSeqZero buf) src) }

def SegHistory.retransmit (cfg : TxCfg) (h : SegHistory) (i : ℕ) (env : ℕ → ResendEnv)
    (again : List ℕ) (now : ℤ) : SegHistory :=
  let tx := segTxSendUnacked cfg (h.tx.setCtx i { h.tx.ctx i with retransmit := false }) env now i
  { h with
    tx := tx
    adv := h.adv ++ again.map (⟨i, h.ownerOf i, ·⟩)
    log := h.log ++ h.endedBy tx i (.retransmit (h.ownerOf i)) }

def segHistoryStep (cfg : TxCfg) (h : SegHistory) : SegAct → Option SegHistory
  | .send p env now => some (h.send cfg p env now)
  | .sent k now =>
    match h.adv[k]? with
    | none => none
    | some e => some (h.sent cfg k e now)
  | .ack src friendMatch buf env again now => some (h.ack cfg src friendMatch buf env again now)
  | .retransmit i env again now =>
    if (h.tx.ctx i).retransmit then some (h.retransmit cfg i env again now) else none

/-- `count` is `CONFIG_BT_MESH_TX_SEG_MSG_COUNT`. -/
def segHistoryInit (node : MeshNode) (count : ℕ) : SegHistory :=
  ⟨txInit node count, List.replicate count 0, [], [], []⟩

end GenieSdk.Model
