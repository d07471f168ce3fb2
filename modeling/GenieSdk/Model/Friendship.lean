import Mathlib.Tactic

/-!
# Friend subscriptions

The two sides of one established friendship, `lpn.c` and `friend.c`, with the requests of the LPN
and the PDUs of the Friend between them. What the advertiser and the radio do is given with the
actions: whether `bt_mesh_ctl_send` has a buffer, whether a PDU is heard, when a timer fires. A
request that has not been heard when the next one is sent is lost. The transaction numbers are
kept unwrapped; the `u8` fields hold them modulo 256.
-/

set_option autoImplicit false

namespace GenieSdk.Model

/-! ## The state -/

/-- `TRANS_CTL_OP_FRIEND_SUB_ADD` and `TRANS_CTL_OP_FRIEND_SUB_REM` -/
inductive SubOp
  | add
  | rem
  deriving DecidableEq

/-- The values of `sent_req`. -/
inductive SentReq
  | none
  | poll
  | sub (op : SubOp)
  deriving DecidableEq

/-- A request of the LPN. -/
inductive LpnReq
  | poll (fsn : Bool)
  | sub (op : SubOp) (xact : ℕ) (addrList : List ℕ)
  deriving DecidableEq

/-- What waits in the Friend Queue: Friend Updates and messages for the LPN. `seq` tells one PDU from
another; it stands for the source and the sequence number. -/
inductive QueuedPdu
  | update (md : Bool) (seq : ℕ)
  | msg (seq : ℕ)
  deriving DecidableEq

/-- What the Friend sends. -/
inductive FriendPdu
  | subCfm (xact : ℕ)
  | queued (pdu : QueuedPdu)
  deriving DecidableEq

/-- `BT_MESH_LPN_ESTABLISHED`, `BT_MESH_LPN_RECV_DELAY` and `BT_MESH_LPN_WAIT_UPDATE` -/
inductive LpnState
  | established
  | recvDelay
  | waitUpdate
  deriving DecidableEq

/-- `groups[i]` with bit `i` of `added`, `pending` and `to_remove`. -/
structure LpnGroup where
  group : ℕ
  added : Bool
  pending : Bool
  toRemove : Bool
  deriving DecidableEq

/-- `struct bt_mesh_lpn` of an established friendship. `queued` counts the requests whose
`req_sent` is still to come. -/
structure Lpn where
  state : LpnState
  xactNext : ℕ
  xactPending : ℕ
  sentReq : SentReq
  reqAttempts : ℕ
  groupsChanged : Bool
  pendingPoll : Bool
  fsn : Bool
  queueSize : ℕ
  groups : List LpnGroup
  queued : ℕ
  deriving DecidableEq

/-- `struct bt_mesh_friend` of an established friendship. -/
structure Friend where
  fsn : Bool
  sendLast : Bool
  pendingReq : Bool
  pendingBuf : Bool
  subList : List ℕ
  last : Option FriendPdu
  queue : List QueuedPdu
  deriving DecidableEq

/-- Both sides, and the request that is on the air. -/
structure Friendship where
  lpn : Lpn
  frnd : Friend
  air : Option LpnReq
  deriving DecidableEq

/-- Which calls of `bt_mesh_ctl_send` succeed. -/
structure CtlSend where
  add : Bool
  rem : Bool
  poll : Bool
  deriving DecidableEq

def CtlSend.sub (ok : CtlSend) : SubOp → Bool
  | .add => ok.add
  | .rem => ok.rem

/-! ## The LPN -/

/-- `BT_MESH_ADDR_UNASSIGNED` -/
def addrUnassigned : ℕ := 0

/-- `ARRAY_SIZE(req.addr_list)` -/
def addrListSize : ℕ := 5

def reqRetryTimesMax : ℕ := 12

/-- `REQ_ATTEMPTS`; `POLL_TIMEOUT_MAX` depends on the durations the advertiser reports. -/
def maxReqAttempts (pollTimeoutMax : ℤ) : ℕ := if pollTimeoutMax < 3000 then 2 else reqRetryTimesMax

/-- Apply `f` to the first element that meets `p`. -/
def updFirst {α : Type} (p : α → Bool) (f : α → α) : List α → List α
  | [] => []
  | a :: as => if p a then f a :: as else a :: updFirst p f as

/-- SRCLINE: lpn.c:652-680 -/
def lpnGroupAdd (group : ℕ) (lpn : Lpn) : Lpn :=
  if lpn.groups.any fun g => g.group == group then
    { lpn with
      groups := updFirst (fun g => g.group == group) (fun g => { g with toRemove := false })
        lpn.groups }
  else if lpn.groups.any fun g => g.group == addrUnassigned then
    { lpn with
      groups := updFirst (fun g => g.group == addrUnassigned) (fun g => { g with group := group })
        lpn.groups
      groupsChanged := true }
  else lpn

/-- SRCLINE: lpn.c:682-703 -/
def lpnGroupDel (lpn : Lpn) (group : ℕ) : Lpn :=
  { lpn with
    groups := lpn.groups.map fun g =>
      if g.group = group then
        if g.added || g.pending then { g with toRemove := true }
        else { g with group := addrUnassigned }
      else g
    groupsChanged := lpn.groupsChanged ||
      lpn.groups.any fun g => g.group == group && (g.added || g.pending) }

/-- Whether the loop of `sub_update` takes this entry of `groups`. -/
def subSelects (op : SubOp) (g : LpnGroup) : Bool :=
  g.group != addrUnassigned &&
    match op with
    | .add => !g.added
    | .rem => g.toRemove

/-- The loop of `sub_update`: the entries with their `pending` bits, and `req.addr_list`.
SRCLINE: lpn.c:746-781 -/
def subLoop (op : SubOp) (addedCount queueSize : ℕ) : List LpnGroup → ℕ → List LpnGroup × List ℕ
  | [], _ => ([], [])
  | a :: groups, g =>
    if subSelects op a = false then
      let (groups, addrList) := subLoop op addedCount queueSize groups g
      (a :: groups, addrList)
    -- "Friend Queue Size exceeded"
    else if queueSize ≤ addedCount + g then (a :: groups, [])
    else if g + 1 = addrListSize then ({ a with pending := true } :: groups, [a.group])
    else
      let (groups, addrList) := subLoop op addedCount queueSize groups (g + 1)
      ({ a with pending := true } :: groups, a.group :: addrList)

/-- `group_zero(lpn->pending)` -/
def zeroPending (groups : List LpnGroup) : List LpnGroup :=
  groups.map fun g => { g with pending := false }

/-- What the loop of `sub_update` leaves for this LPN. -/
def Lpn.subReq (lpn : Lpn) (op : SubOp) : List LpnGroup × List ℕ :=
  subLoop op (lpn.groups.countP (·.added)) lpn.queueSize lpn.groups 0

/-- SRCLINE: lpn.c:719-801 -/
def subUpdate (ok : CtlSend) (op : SubOp) (s : Friendship) : Friendship :=
  if s.lpn.sentReq ≠ .none then s
  else
    let (groups, addrList) := s.lpn.subReq op
    if addrList = [] then { s with lpn.groups := zeroPending groups }
    else
      let xact := s.lpn.xactNext
      if ok.sub op = false then
        { s with lpn.groups := zeroPending groups, lpn.xactNext := xact + 1 }
      else
        { s with
          lpn.groups := groups
          lpn.xactNext := xact + 1
          lpn.xactPending := xact
          lpn.sentReq := .sub op
          lpn.queued := s.lpn.queued + 1
          air := some (.sub op xact addrList) }

/-- SRCLINE: lpn.c:388-432 -/
def sendFriendPoll (ok : CtlSend) (s : Friendship) : Friendship :=
  match s.lpn.sentReq with
  | .sub _ => { s with lpn.pendingPoll := true }
  | .poll => s
  | .none =>
    if ok.poll = false then s
    else
      { s with
        lpn.pendingPoll := false
        lpn.sentReq := .poll
        lpn.queued := s.lpn.queued + 1
        air := some (.poll s.lpn.fsn) }

/-- The `start` callback of a request. SRCLINE: lpn.c:346-382 -/
def reqSent (err : Bool) (lpn : Lpn) : Lpn :=
  if err then { lpn with sentReq := .none, groups := zeroPending lpn.groups }
  else { lpn with reqAttempts := (lpn.reqAttempts + 1) % 256, state := .recvDelay }

/-- SRCLINE: lpn.c:505-519 -/
def friendResponseReceived (lpn : Lpn) : Lpn :=
  { lpn with
    fsn := if lpn.sentReq = .poll then !lpn.fsn else lpn.fsn
    state := .established
    reqAttempts := 0
    sentReq := .none }

/-- The part that a confirmation and an update share. SRCLINE: lpn.c:1033-1042, 1132-1141 -/
def updateChanged (ok : CtlSend) (s : Friendship) : Friendship :=
  if s.lpn.groupsChanged = false then s
  else
    let s := subUpdate ok .add s
    let s := subUpdate ok .rem s
    if s.lpn.sentReq = .none then { s with lpn.groupsChanged := false } else s

/-- `added |= pending`, `pending = 0`. SRCLINE: lpn.c:1005-1009 -/
def confirmAdd (g : LpnGroup) : LpnGroup := { g with added := g.added || g.pending, pending := false }

/-- `added &= ~pending`; then `pending` is cleared, and with `to_remove` the entry is freed.
SRCLINE: lpn.c:1010-1024 -/
def confirmRem (g : LpnGroup) : LpnGroup :=
  { group := if g.pending && g.toRemove then addrUnassigned else g.group
    added := g.added && !g.pending
    pending := false
    toRemove := g.toRemove && !g.pending }

def confirmGroup : SubOp → LpnGroup → LpnGroup
  | .add => confirmAdd
  | .rem => confirmRem

/-- SRCLINE: lpn.c:978-1055 -/
def btMeshLpnFriendSubCfm (ok : CtlSend) (xact : ℕ) (s : Friendship) : Friendship :=
  match s.lpn.sentReq with
  | .none => s
  | .poll => s
  | .sub op =>
    if xact % 256 ≠ s.lpn.xactPending % 256 then s
    else
      let lpn := { s.lpn with groups := s.lpn.groups.map (confirmGroup op) }
      let s := updateChanged ok { s with lpn := friendResponseReceived lpn }
      if s.lpn.pendingPoll then sendFriendPoll ok s else s

/-- An established LPN. SRCLINE: lpn.c:1057-1155 -/
def btMeshLpnFriendUpdate (ok : CtlSend) (md : Bool) (s : Friendship) : Friendship :=
  if s.lpn.sentReq ≠ .poll then s
  else
    let s := updateChanged ok { s with lpn := friendResponseReceived s.lpn }
    if md then sendFriendPoll ok s else s

/-- SRCLINE: lpn.c:521-543 -/
def btMeshLpnMsgReceived (ok : CtlSend) (s : Friendship) : Friendship :=
  if s.lpn.sentReq ≠ .poll then s
  else sendFriendPoll ok { s with lpn := friendResponseReceived s.lpn }

/-- The LPN's timer; `none` where `clear_friendship` ends the friendship.
SRCLINE: lpn.c:803-921 -/
def lpnTimeout (pollTimeoutMax : ℤ) (ok : CtlSend) (s : Friendship) : Option Friendship :=
  match s.lpn.state with
  | .recvDelay => some { s with lpn.state := .waitUpdate }
  | .waitUpdate => some { s with lpn.state := .established }
  | .established =>
    if s.lpn.reqAttempts < maxReqAttempts pollTimeoutMax then
      let req := s.lpn.sentReq
      let s := { s with lpn.sentReq := .none }
      match req with
      | .none => some (sendFriendPoll ok s)
      | .poll => some (sendFriendPoll ok s)
      | .sub op => some (subUpdate ok op s)
    else none

/-- SRCLINE: lpn.c:923-935 -/
def btMeshLpnGroupAdd (ok : CtlSend) (group : ℕ) (s : Friendship) : Friendship :=
  subUpdate ok .add { s with lpn := lpnGroupAdd group s.lpn }

/-- SRCLINE: lpn.c:937-956 -/
def btMeshLpnGroupDel (ok : CtlSend) (groups : List ℕ) (s : Friendship) : Friendship :=
  subUpdate ok .rem
    { s with lpn := (groups.filter (· ≠ addrUnassigned)).foldl lpnGroupDel s.lpn }

/-! ## The Friend -/

/-- SRCLINE: friend.c:319-333 -/
def friendSubAdd (subList : List ℕ) (addr : ℕ) : List ℕ :=
  updFirst (· == addrUnassigned) (fun _ => addr) subList

/-- SRCLINE: friend.c:335-347 -/
def friendSubRem (subList : List ℕ) (addr : ℕ) : List ℕ :=
  updFirst (· == addr) (fun _ => addrUnassigned) subList

def friendSub : SubOp → List ℕ → ℕ → List ℕ
  | .add => friendSubAdd
  | .rem => friendSubRem

/-- `encoded` says whether the confirmation could be encoded. SRCLINE: friend.c:467-495 -/
def enqueueSubCfm (encoded : Bool) (xact : ℕ) (frnd : Friend) : Friend :=
  if encoded then { frnd with last := some (.subCfm xact), sendLast := true } else frnd

/-- `bt_mesh_friend_sub_add` and `bt_mesh_friend_sub_rem`. SRCLINE: friend.c:504-580 -/
def btMeshFriendSub (op : SubOp) (encoded : Bool) (xact : ℕ) (addrList : List ℕ) (frnd : Friend) :
    Friend :=
  if frnd.pendingBuf then frnd
  else
    enqueueSubCfm encoded xact
      { frnd with pendingReq := true, subList := addrList.foldl (friendSub op) frnd.subList }

/-- `encoded` has the sequence number of a Friend Update, if one could be encoded.
SRCLINE: friend.c:588-668 -/
def btMeshFriendPoll (encoded : Option ℕ) (fsn : Bool) (frnd : Friend) : Friend :=
  if frnd.pendingBuf then frnd
  else if fsn = frnd.fsn ∧ frnd.last.isSome then
    { frnd with pendingReq := true, sendLast := true }
  else
    { frnd with
      pendingReq := true
      last := none
      fsn := fsn
      queue := if frnd.queue = [] then (encoded.map (QueuedPdu.update false)).toList else frnd.queue }

/-- The Friend hears a request; `encoded` has the sequence number of the PDU that it encodes itself. -/
def friendRecv (encoded : Option ℕ) (frnd : Friend) : LpnReq → Friend
  | .poll fsn => btMeshFriendPoll encoded fsn frnd
  | .sub op xact addrList => btMeshFriendSub op encoded.isSome xact addrList frnd

/-- The Friend's timer; `none` where `friend_clear` ends the friendship.
SRCLINE: friend.c:1106-1150 -/
def friendTimeout (frnd : Friend) : Option Friend :=
  if frnd.pendingBuf then none
  else if frnd.sendLast ∧ frnd.last.isSome then
    some { frnd with sendLast := false, pendingReq := false, pendingBuf := true }
  else if frnd.pendingReq = false then none
  else
    match frnd.queue with
    | [] => none
    | pdu :: queue =>
      some { frnd with
        last := some (.queued pdu), queue := queue, pendingReq := false, pendingBuf := true }

/-! ## Steps -/

inductive FriendshipAct
  /-- Calls of the LPN's application. -/
  | groupAdd (ok : CtlSend) (group : ℕ)
  | groupDel (ok : CtlSend) (groups : List ℕ)
  | poll (ok : CtlSend)
  /-- The LPN's timer and its advertiser. -/
  | lpnTimeout (pollTimeoutMax : ℤ) (ok : CtlSend)
  | reqSent (err : Bool)
  /-- The request on the air is lost, or the Friend hears it. -/
  | lose
  | friendRecv (encoded : Option ℕ)
  /-- A PDU for the LPN reaches the Friend Queue. -/
  | enqueue (pdu : QueuedPdu)
  | friendTimeout
  /-- The Friend's PDU goes on the air; the LPN hears it or not. -/
  | bufSendStart (heard : Bool) (ok : CtlSend)
  deriving DecidableEq

/-- The LPN hears a PDU of its Friend. -/
def lpnRecv (ok : CtlSend) (s : Friendship) : FriendPdu → Friendship
  | .subCfm xact => btMeshLpnFriendSubCfm ok xact s
  | .queued (.update md _) => btMeshLpnFriendUpdate ok md s
  | .queued (.msg _) => btMeshLpnMsgReceived ok s

/-- One step of the friendship; `none` where it is not enabled or the friendship ends. -/
def friendshipStep (s : Friendship) : FriendshipAct → Option Friendship
  | .groupAdd ok group => some (btMeshLpnGroupAdd ok group s)
  | .groupDel ok groups => some (btMeshLpnGroupDel ok groups s)
  | .poll ok => some (sendFriendPoll ok s)
  | .lpnTimeout pollTimeoutMax ok => lpnTimeout pollTimeoutMax ok s
  | .reqSent err =>
    if s.lpn.queued = 0 then none
    else some { s with lpn := reqSent err { s.lpn with queued := s.lpn.queued - 1 } }
  | .lose => some { s with air := none }
  | .friendRecv encoded =>
    match s.air with
    | none => none
    | some req => some { s with frnd := friendRecv encoded s.frnd req, air := none }
  | .enqueue pdu => some { s with frnd.queue := s.frnd.queue ++ [pdu] }
  | .friendTimeout =>
    match friendTimeout s.frnd with
    | none => none
    | some frnd => some { s with frnd := frnd }
  -- SRCLINE: friend.c:1061-1075
  | .bufSendStart heard ok =>
    if s.frnd.pendingBuf = false then none
    else
      let s := { s with frnd.pendingBuf := false }
      match s.frnd.last with
      | some pdu => some (if heard then lpnRecv ok s pdu else s)
      | none => some s

end GenieSdk.Model
