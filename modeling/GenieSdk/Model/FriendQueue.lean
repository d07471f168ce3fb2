import GenieSdk.Model.Friendship
import GenieSdk.Model.MeshTransport

/-!
# The buffers of the Friend

`friend.c` with its buffer pool: where the buffers of all friendships are, and who has references to
them. A buffer is named by its index in `friend_buf_pool`. What the encoding of a PDU returns is
given with the actions. The assertions are off. A function is `none` where the lists get lost:
`discard_buffer` has no buffer to discard, or `adv_queue` gets a buffer that already waits in it.
-/

set_option autoImplicit false

namespace GenieSdk.Model.FriendQueue

/-! ## The state -/

/-- `TRANS_SEQ_AUTH_NVAL` -/
def transSeqAuthNval : ℕ := 2 ^ 64 - 1

/-- `struct net_buf` with its `struct friend_adv`. A buffer with `ref = 0` is in the pool. -/
structure Buf where
  ref : ℕ
  addr : ℕ
  seqAuth : ℕ
  busy : Bool
  cbData : ℕ
  deriving DecidableEq, Repr

def Buf.free : Buf := ⟨0, 0, 0, false, 0⟩

/-- `struct bt_mesh_friend` without the parameters of the LPN and the clear procedure; `timer` says
that `timer` is submitted. -/
structure Frnd where
  lpn : ℕ
  netIdx : ℕ
  fsn : Bool
  sendLast : Bool
  pendingReq : Bool
  secUpdate : Bool
  pendingBuf : Bool
  valid : Bool
  established : Bool
  subList : List ℕ
  timer : Bool
  seg : List (List ℕ)
  last : Option ℕ
  queue : List ℕ
  queueSize : ℕ
  deriving DecidableEq, Repr

/-- The Friend; `advQueue` has its buffers in `adv_queue`, `advNow` is the one that `adv_send` is
about to start, `advEnd` the friendship whose end callback is due. `glp` is
`CONFIG_GENIE_MESH_GLP`. -/
structure FriendSys where
  glp : Bool
  suspended : Bool
  primaryAddr : ℕ
  bufs : List Buf
  frnd : List Frnd
  advQueue : List ℕ
  advNow : Option ℕ
  advEnd : Option ℕ
  deriving DecidableEq, Repr

namespace FriendSys

def buf (s : FriendSys) (b : ℕ) : Buf := s.bufs.getD b Buf.free

/-- One buffer is changed. -/
def modBuf (s : FriendSys) (b : ℕ) (f : Buf → Buf) : FriendSys := { s with bufs := s.bufs.modify b f }

/-- One friendship is changed. -/
def modFrnd (s : FriendSys) (i : ℕ) (f : Frnd → Frnd) : FriendSys :=
  { s with frnd := s.frnd.modify i f }

/-- `net_buf_unref` -/
def unref (s : FriendSys) (b : ℕ) : FriendSys := s.modBuf b fun x => { x with ref := x.ref - 1 }

def unrefAll (s : FriendSys) (bs : List ℕ) : FriendSys := bs.foldl unref s

end FriendSys

/-! ## Buffers -/

/-- The friendship with the most queued buffers, from the first one on. SRCLINE: friend.c:73-84 -/
def mostQueued : ℕ → ℕ → ℕ → List Frnd → ℕ
  | best, _, _, [] => best
  | best, size, i, f :: fs =>
    if size < f.queueSize then mostQueued i f.queueSize (i + 1) fs else mostQueued best size (i + 1) fs

/-- SRCLINE: friend.c:71-92 -/
def discardBuffer (s : FriendSys) : Option FriendSys :=
  match s.frnd with
  | [] => none
  | f :: fs =>
    let i := mostQueued 0 f.queueSize 1 fs
    match (s.frnd.getD i f).queue with
    | [] => none
    | b :: _ =>
      some ((s.modFrnd i fun f =>
        { f with queue := f.queue.tail, queueSize := f.queueSize - 1 }).unref b)

/-- `bt_mesh_adv_create_from_pool`: a free buffer, if there is one. A suspended stack is resumed, or it
refuses. SRCLINE: adv.c:410-449 -/
def advCreateFromPool (s : FriendSys) : Option (ℕ × FriendSys) :=
  if s.suspended ∧ ¬ s.glp then none
  else
    match s.bufs.findIdx? fun x => x.ref = 0 with
    | none => none
    | some b => some (b, { s with suspended := false })

/-- The loop of `friend_buf_alloc`; every round but the last one takes a buffer from a queue. -/
def friendBufAllocLoop (src : ℕ) : ℕ → FriendSys → Option (ℕ × FriendSys)
  | 0, _ => none
  | n + 1, s =>
    match advCreateFromPool s with
    | some (b, s) => some (b, s.modBuf b fun _ => ⟨1, src, transSeqAuthNval, false, 0⟩)
    | none =>
      match discardBuffer s with
      | none => none
      | some s => friendBufAllocLoop src n s

/-- SRCLINE: friend.c:94-120 -/
def friendBufAlloc (src : ℕ) (s : FriendSys) : Option (ℕ × FriendSys) :=
  friendBufAllocLoop src ((s.frnd.map fun f => f.queue.length).sum + 1) s

/-- The buffer with the PDU, unless its encoding fails. SRCLINE: friend.c:349-418 -/
def createFriendPdu (src : ℕ) (encoded : Bool) (s : FriendSys) : Option (Option ℕ × FriendSys) :=
  match friendBufAlloc src s with
  | none => none
  | some (b, s) => if encoded then some (some b, s) else some (none, s.unref b)

/-- SRCLINE: friend.c:582-586 -/
def enqueueBuf (i b : ℕ) (s : FriendSys) : FriendSys :=
  s.modFrnd i fun f => { f with queue := f.queue ++ [b], queueSize := f.queueSize + 1 }

/-- SRCLINE: friend.c:588-601 -/
def enqueueUpdate (i : ℕ) (encoded : Bool) (s : FriendSys) : Option FriendSys :=
  match createFriendPdu s.primaryAddr encoded s with
  | none => none
  | some (none, s) => some s
  | some (some b, s) => some (enqueueBuf i b (s.modFrnd i fun f => { f with secUpdate := false }))

/-- `frnd->last` is given back. -/
def dropLast (i : ℕ) (s : FriendSys) : FriendSys :=
  match s.frnd[i]? with
  | none => s
  | some f => (s.modFrnd i fun f => { f with last := none }).unrefAll f.last.toList

/-- `frnd->last = buf`, `frnd->send_last = 1` of an offer and a confirmation.
SRCLINE: friend.c:479-494, 816-831 -/
def enqueueLast (i : ℕ) (encoded : Bool) (s : FriendSys) : Option FriendSys :=
  match createFriendPdu s.primaryAddr encoded s with
  | none => none
  | some (none, s) => some s
  | some (some b, s) =>
    some ((dropLast i s).modFrnd i fun f => { f with last := some b, sendLast := true })

/-- What `friend_clear` leaves of a friendship. -/
def clearedFrnd (f : Frnd) : Frnd :=
  { f with
    timer := false, last := none, queue := [], seg := f.seg.map fun _ => [], valid := false
    established := false, pendingBuf := false, fsn := false, queueSize := 0, pendingReq := false
    subList := f.subList.map fun _ => 0 }

/-- SRCLINE: friend.c:172-216 -/
def friendClear (i : ℕ) (s : FriendSys) : FriendSys :=
  match s.frnd[i]? with
  | none => s
  | some f =>
    let s := if f.pendingBuf then
        f.last.toList.foldl (fun s b => s.modBuf b fun x => { x with busy := false }) s
      else s
    (s.modFrnd i clearedFrnd).unrefAll (f.last.toList ++ f.queue ++ f.seg.flatten)

/-! ## Requests of the LPN -/

/-- `BT_MESH_KEY_ANY`, which is also `BT_MESH_KEY_UNUSED`. -/
def keyAny : ℕ := 0xFFFF

/-- `bt_mesh_friend_find` with `valid`. SRCLINE: friend.c:122-155 -/
def friendFind (s : FriendSys) (netIdx lpnAddr : ℕ) (established : Bool) : Option ℕ :=
  s.frnd.findIdx? fun f =>
    f.valid && (!established || f.established) && (netIdx == keyAny || f.netIdx == netIdx) &&
      f.lpn == lpnAddr

/-- A friendship that a request with correct parameters is for: an existing one, or a free context.
SRCLINE: friend.c:919-952 -/
def friendReqCtx (s : FriendSys) (netIdx addr prevAddr : ℕ) : Option (ℕ × Bool) :=
  match friendFind s netIdx (if addrIsUnicast prevAddr then prevAddr else addr) false with
  | some i => some (i, true)
  | none => (s.frnd.findIdx? fun f => !f.valid).map fun i => (i, false)

/-- `bt_mesh_friend_req` with correct parameters. SRCLINE: friend.c:867-980 -/
def friendReq (netIdx addr prevAddr : ℕ) (encoded : Bool) (s : FriendSys) : Option FriendSys :=
  match friendReqCtx s netIdx addr prevAddr with
  | none => some s
  | some (i, existing) =>
    let s := if existing then friendClear i s else s.modFrnd i fun f => { f with valid := true }
    enqueueLast i encoded (s.modFrnd i fun f => { f with lpn := addr, netIdx := netIdx, timer := true })

/-- SRCLINE: friend.c:603-668 -/
def friendPoll (netIdx addr : ℕ) (fsn encoded : Bool) (s : FriendSys) : Option FriendSys :=
  match friendFind s netIdx addr false with
  | none => some s
  | some i =>
    match s.frnd[i]? with
    | none => some s
    | some f =>
      if f.pendingBuf then some s
      else
        let s := s.modFrnd i fun f =>
          { f with pendingReq := true, timer := true, established := true }
        if fsn = f.fsn ∧ f.last.isSome then some (s.modFrnd i fun f => { f with sendLast := true })
        else
          let s := (dropLast i s).modFrnd i fun f => { f with fsn := fsn }
          if f.queue = [] then enqueueUpdate i encoded s else some s

/-- `bt_mesh_friend_sub_add` and `bt_mesh_friend_sub_rem`. SRCLINE: friend.c:504-580 -/
def friendSub (netIdx addr : ℕ) (op : SubOp) (addrList : List ℕ) (encoded : Bool)
    (s : FriendSys) : Option FriendSys :=
  match friendFind s netIdx addr true with
  | none => some s
  | some i =>
    match s.frnd[i]? with
    | none => some s
    | some f =>
      if f.pendingBuf then some s
      else
        enqueueLast i encoded (s.modFrnd i fun f =>
          { f with
            pendingReq := true, timer := true
            subList := addrList.foldl (Model.friendSub op) f.subList })

/-! ## PDUs for the LPN -/

/-- `enum bt_mesh_friend_pdu_type` -/
inductive PduType
  | single
  | partial_
  | complete
  deriving DecidableEq, Repr

/-- SRCLINE: friend.c:982-1006 -/
def getSeg (s : FriendSys) (f : Frnd) (src seqAuth : ℕ) : Option ℕ :=
  match f.seg.findIdx? fun q =>
      q.head?.any fun b => (s.buf b).addr == src && (s.buf b).seqAuth == seqAuth with
  | some j => some j
  | none => f.seg.findIdx? fun q => q.isEmpty

/-- The segments of a message go to the Friend Queue. SRCLINE: friend.c:1046-1057 -/
def mergeSeg (i j : ℕ) (s : FriendSys) : FriendSys :=
  match s.frnd[i]? with
  | none => s
  | some f =>
    let q := f.seg.getD j []
    let s := q.foldl (fun s b => s.modBuf b fun x => { x with seqAuth := transSeqAuthNval }) s
    s.modFrnd i fun f =>
      { f with queue := f.queue ++ q, queueSize := f.queueSize + q.length, seg := f.seg.set j [] }

/-- SRCLINE: friend.c:1008-1059 -/
def enqueueFriendPdu (i : ℕ) (type : PduType) (b : ℕ) (encoded : Bool) (s : FriendSys) :
    Option FriendSys :=
  match s.frnd[i]? with
  | none => some s
  | some f =>
    let update := fun s => if f.secUpdate then enqueueUpdate i encoded s else some s
    match type with
    | .single => (update s).map (enqueueBuf i b)
    | _ =>
      match getSeg s f (s.buf b).addr (s.buf b).seqAuth with
      | none => some (s.unref b)
      | some j =>
        let s := s.modFrnd i fun f => { f with seg := f.seg.modify j (· ++ [b]) }
        if type = .complete then (update s).map (mergeSeg i j) else some s

/-- SRCLINE: friend.c:1179-1205 -/
def friendPurgeOldAck (i seqAuth src : ℕ) (s : FriendSys) : FriendSys :=
  match s.frnd[i]? with
  | none => s
  | some f =>
    match f.queue.find? fun b => (s.buf b).addr == src && (s.buf b).seqAuth == seqAuth with
    | none => s
    | some b =>
      (s.modFrnd i fun f =>
        { f with queue := f.queue.erase b, queueSize := f.queueSize - 1 }).unref b

/-- SRCLINE: friend.c:1306-1340 -/
def friendLpnMatches (f : Frnd) (netIdx addr : ℕ) : Bool :=
  f.established && netIdx == f.netIdx &&
    (if addrIsUnicast addr then addr == f.lpn else f.subList.contains addr)

/-- `friend_lpn_enqueue_rx` and `friend_lpn_enqueue_tx` for a friendship that matches.
SRCLINE: friend.c:1207-1304 -/
def friendLpnEnqueue (i netIdx src dst : ℕ) (type : PduType) (seqAuth : Option ℕ)
    (encoded encodedUpdate : Bool) (s : FriendSys) : Option FriendSys :=
  match s.frnd[i]? with
  | none => some s
  | some f =>
    if friendLpnMatches f netIdx dst = false then some s
    else
      let s := if type = .single then
          seqAuth.toList.foldl (fun s seqAuth => friendPurgeOldAck i seqAuth src s) s
        else s
      match createFriendPdu src encoded s with
      | none => none
      | some (none, s) => some s
      | some (some b, s) =>
        let s := seqAuth.toList.foldl
          (fun s seqAuth => s.modBuf b fun x => { x with seqAuth := seqAuth }) s
        enqueueFriendPdu i type b encodedUpdate s

/-- One segment queue of `bt_mesh_friend_clear_incomplete`. SRCLINE: friend.c:1436-1462 -/
def clearSeg (i src seqAuth : ℕ) (s : FriendSys) (j : ℕ) : FriendSys :=
  match s.frnd[i]? with
  | none => s
  | some f =>
    let q := f.seg.getD j []
    if q.head?.any fun b => (s.buf b).addr == src && (s.buf b).seqAuth == seqAuth then
      (s.modFrnd i fun f => { f with seg := f.seg.set j [] }).unrefAll q
    else s

/-- One friendship of `bt_mesh_friend_clear_incomplete`. SRCLINE: friend.c:1420-1466 -/
def clearIncomplete (i netIdx src dst seqAuth : ℕ) (s : FriendSys) : FriendSys :=
  match s.frnd[i]? with
  | none => s
  | some f =>
    if friendLpnMatches f netIdx dst then
      (List.range f.seg.length).foldl (clearSeg i src seqAuth) s
    else s

/-! ## Sending -/

/-- `pending_req = 0`, `pending_buf = 1` and `bt_mesh_adv_send`, which links the buffer into
`adv_queue`. SRCLINE: friend.c:1146-1149 -/
def sendLast (i b : ℕ) (s : FriendSys) : Option FriendSys :=
  if b ∈ s.advQueue then none
  else
    let s := s.modFrnd i fun f => { f with pendingReq := false, pendingBuf := true }
    let s := s.modBuf b fun x => { x with ref := x.ref + 1, busy := true, cbData := i }
    some { s with advQueue := s.advQueue ++ [b] }

/-- The timer of a friendship. SRCLINE: friend.c:1106-1150 -/
def friendTimeout (i : ℕ) (s : FriendSys) : Option FriendSys :=
  match s.frnd[i]? with
  | none => some s
  | some f =>
    if f.timer = false then some s
    else
      let s := s.modFrnd i fun f => { f with timer := false }
      match f.sendLast, f.last with
      | true, some b => sendLast i b (s.modFrnd i fun f => { f with sendLast := false })
      | _, _ =>
        if f.established ∧ ¬ f.pendingReq then some (friendClear i s)
        else
          match f.queue with
          | [] => some (friendClear i (s.modFrnd i fun f => { f with last := none }))
          | b :: queue =>
            sendLast i b (s.modFrnd i fun f =>
              { f with last := some b, queue := queue, queueSize := f.queueSize - 1 })

/-- SRCLINE: friend.c:1061-1075 -/
def bufSendStart (i : ℕ) (s : FriendSys) : FriendSys :=
  match s.frnd[i]? with
  | none => s
  | some f =>
    let s := s.modFrnd i fun f => { f with pendingBuf := false }
    if f.established then s else dropLast i s

/-- SRCLINE: friend.c:1077-1104 -/
def bufSendEnd (i : ℕ) (s : FriendSys) : FriendSys :=
  s.modFrnd i fun f => if f.pendingReq then f else { f with timer := true }

/-- The advertiser takes a buffer from `adv_queue`, or drops one that was cancelled.
SRCLINE: adv.c:383-393 -/
def advTake (s : FriendSys) : FriendSys :=
  match s.advQueue, s.advNow, s.advEnd with
  | b :: rest, none, none =>
    if (s.buf b).busy then
      { s.modBuf b (fun x => { x with busy := false }) with advQueue := rest, advNow := some b }
    else { s.unref b with advQueue := rest }
  | _, _, _ => s

/-- The advertiser has started, gives the buffer back and calls `start`. SRCLINE: adv.c:158-159 -/
def advStart (s : FriendSys) : FriendSys :=
  match s.advNow with
  | none => s
  | some b =>
    let i := (s.buf b).cbData
    bufSendStart i { s.unref b with advNow := none, advEnd := some i }

/-- The advertiser has stopped and calls `end`. SRCLINE: adv.c:171-172 -/
def advStop (s : FriendSys) : FriendSys :=
  match s.advEnd with
  | none => s
  | some i => bufSendEnd i { s with advEnd := none }

/-! ## Steps -/

inductive FriendAct
  | friendReq (netIdx addr prevAddr : ℕ) (encoded : Bool)
  | poll (netIdx addr : ℕ) (fsn encoded : Bool)
  | sub (netIdx addr : ℕ) (op : SubOp) (addrList : List ℕ) (encoded : Bool)
  /-- A Friend Clear, or `bt_mesh_friend_clear_net_idx`. -/
  | clear (i : ℕ)
  /-- `bt_mesh_friend_sec_update` -/
  | secUpdate (netIdx : ℕ)
  | enqueue (i netIdx src dst : ℕ) (type : PduType) (seqAuth : Option ℕ)
    (encoded encodedUpdate : Bool)
  | clearIncomplete (i netIdx src dst seqAuth : ℕ)
  | timeout (i : ℕ)
  | advTake
  | advStart
  | advStop
  | suspend
  | resume
  deriving DecidableEq

def friendStep (s : FriendSys) : FriendAct → Option FriendSys
  | .friendReq netIdx addr prevAddr encoded => friendReq netIdx addr prevAddr encoded s
  | .poll netIdx addr fsn encoded => friendPoll netIdx addr fsn encoded s
  | .sub netIdx addr op addrList encoded => friendSub netIdx addr op addrList encoded s
  | .clear i => some (friendClear i s)
  | .secUpdate netIdx =>
    some { s with
      frnd := s.frnd.map fun f =>
        if f.netIdx ≠ keyAny ∧ (netIdx = keyAny ∨ f.netIdx = netIdx) then
          { f with secUpdate := true }
        else f }
  | .enqueue i netIdx src dst type seqAuth encoded encodedUpdate =>
    friendLpnEnqueue i netIdx src dst type seqAuth encoded encodedUpdate s
  | .clearIncomplete i netIdx src dst seqAuth => some (clearIncomplete i netIdx src dst seqAuth s)
  | .timeout i => friendTimeout i s
  | .advTake => some (advTake s)
  | .advStart => some (advStart s)
  | .advStop => some (advStop s)
  | .suspend => some { s with suspended := true }
  | .resume => some { s with suspended := false }

/-- A friendship at start-up. -/
def Frnd.zero (segRx subListSize : ℕ) : Frnd where
  lpn := 0
  netIdx := keyAny
  fsn := false
  sendLast := false
  pendingReq := false
  secUpdate := false
  pendingBuf := false
  valid := false
  established := false
  subList := List.replicate subListSize 0
  timer := false
  seg := List.replicate segRx []
  last := none
  queue := []
  queueSize := 0

/-- `CONFIG_BT_MESH_FRIEND_QUEUE_SIZE`, `_LPN_COUNT`, `_SEG_RX` and `_SUB_LIST_SIZE`. -/
structure FriendConf where
  queueSize : ℕ
  lpnCount : ℕ
  segRx : ℕ
  subListSize : ℕ
  glp : Bool
  deriving DecidableEq, Repr

/-- `FRIEND_BUF_COUNT` -/
def FriendConf.bufCount (c : FriendConf) : ℕ := (c.queueSize + 1) * c.lpnCount

/-- `bt_mesh_friend_init` -/
def friendInit (c : FriendConf) (primaryAddr : ℕ) : FriendSys where
  glp := c.glp
  suspended := false
  primaryAddr := primaryAddr
  bufs := List.replicate c.bufCount Buf.free
  frnd := List.replicate c.lpnCount (Frnd.zero c.segRx c.subListSize)
  advQueue := []
  advNow := none
  advEnd := none

end GenieSdk.Model.FriendQueue
