import GenieSdk.Lib.Runs
import GenieSdk.Model.Timer

/-!
# Vendor message transport

`genie_transport.c`: messages that want an answer wait in `send_list` until they are
acknowledged, replaced or given up, and one timer retransmits them. The list is guarded by
`transport_mutex`, a kernel mutex that its owner may lock again.

`log` records what a message goes through. A node is named by the number of its allocation.
-/

set_option autoImplicit false

namespace GenieSdk.Model

/-- `CONFIG_VENDOR_SEND_MSG_MAX` -/
def vendorSendMsgMax : ℕ := 8

/-- `VENDOR_MODEL_MSG_MAX_RETRY_TIMES` -/
def vendorModelMsgMaxRetryTimes : ℕ := 45

def vendorOpAttrSetAck : UInt8 := 0xD1

def vendorOpAttrStatus : UInt8 := 0xD3

def vendorOpAttrIndicate : UInt8 := 0xD4

def vendorOpAttrIndicateTg : UInt8 := 0xDE

def vendorOpAttrTransMsg : UInt8 := 0xCF

def vendorOpAttrTransIndicate : UInt8 := 0xCE

def genieTransportTidMin : UInt8 := 0x80

def genieTransportTidMax : UInt8 := 0xBF

/-- `transport_result_e` -/
inductive SendResult
  | success
  | timeout
  deriving DecidableEq, Repr

/-- `genie_transport_model_param_t`. Empty `data` stands for a `NULL` pointer or a zero `len`;
`resultCb` says whether the callback is set. -/
structure TransportMsg where
  resultCb : Bool
  retry : ℕ
  opid : UInt8
  tid : UInt8
  dstAddr : ℕ
  retryPeriod : ℕ
  data : List UInt8
  deriving DecidableEq, Repr

/-- `genie_transport_node_t` -/
structure TransportNode where
  id : ℕ
  leftRetry : ℕ
  timeout : ℤ
  msg : TransportMsg
  deriving DecidableEq, Repr

/-- What happens to a message. `append` holds the number of retries asked for; a message that is
not listed is transmitted under no name. -/
inductive TxEvent
  | append (id retry : ℕ)
  | transmit (id : Option ℕ) (tid : UInt8)
  | result (id : ℕ) (res : SendResult)
  | remove (id : ℕ)
  deriving DecidableEq, Repr

structure TransportState where
  sendList : List TransportNode
  allocs : ℕ
  /-- `timeout` of `retransmit_timer`: a timer counts as started while this is not zero. -/
  timerTimeout : ℕ
  genTid : UInt8
  mutexTask : Option ℕ
  ownerNested : ℕ
  log : List TxEvent
  deriving DecidableEq, Repr

/-- What a call finds around it: `uptime k` is the result of its `k`-th `k_uptime_get`. -/
structure TransportEnv where
  provisioned : Bool
  mallocOk : Bool
  rand : UInt8
  uptime : ℕ → ℤ
  modelSend : ℤ

/-- `RHINO_CONFIG_TICKS_PER_SECOND`. SRCLINE: k_config.h:131-133 -/
def rhinoTicksPerSecond : ℕ := 1000

/-- SRCLINE: k_time.c:46-60 -/
def krhinoMsToTicks (ms : ℕ) : ℕ :=
  let surplus := ms % 1000
  let padding := 1000 / rhinoTicksPerSecond - 1
  ms / 1000 * rhinoTicksPerSecond + (surplus + padding) * rhinoTicksPerSecond / 1000

/-- The ticks that a timer runs for after `k_timer_start`; `initCount` is what it was set to before,
which it keeps when `krhino_timer_change` refuses. SRCLINE: aos_port.c:232-256, k_timer.c:173-198 -/
def kTimerStart (initCount timeout : ℕ) : ℕ :=
  let first := krhinoMsToTicks timeout
  if first = 0 ∨ maxTimerTicks ≤ first then initCount else first

/-- SRCLINE: genie_transport.c:583-593 -/
def genieTransportInit : TransportState where
  sendList := []
  allocs := 0
  timerTimeout := 0
  genTid := genieTransportTidMax
  mutexTask := none
  ownerNested := 0
  log := []

/-- `krhino_mutex_lock` of `transport_mutex` by `task`: `none` while another task owns it, and
when the nesting count overflows, which stops the system. SRCLINE: k_mutex.c:268-363 -/
def transportLock (s : TransportState) (task : ℕ) : Option TransportState :=
  match s.mutexTask with
  | none => some { s with mutexTask := some task, ownerNested := 1 }
  | some owner =>
    if owner = task then
      if s.ownerNested = 2 ^ 32 - 1 then none
      else some { s with ownerNested := s.ownerNested + 1 }
    else none

/-- SRCLINE: k_mutex.c:365-432 -/
def transportUnlock (s : TransportState) (task : ℕ) : TransportState :=
  if s.mutexTask = some task then
    if 0 < s.ownerNested - 1 then { s with ownerNested := s.ownerNested - 1 }
    else { s with mutexTask := none, ownerNested := 0 }
  else s

def TransportState.record (s : TransportState) (es : List TxEvent) : TransportState :=
  { s with log := s.log ++ es }

/-- SRCLINE: genie_transport.c:30-57 -/
def genieTransportMsgNodeGenerate (s : TransportState) (env : TransportEnv) (msg : TransportMsg) :
    Option TransportNode :=
  let retry := if vendorModelMsgMaxRetryTimes < msg.retry then vendorModelMsgMaxRetryTimes
    else msg.retry
  if env.mallocOk then
    some
      { id := s.allocs, leftRetry := retry, timeout := env.uptime 0 + msg.retryPeriod
        msg := { msg with retry := retry } }
  else none

/-- SRCLINE: genie_transport.c:59-82 -/
def genieTransportFindByTid (s : TransportState) (tid : UInt8) : Option TransportNode :=
  s.sendList.find? fun node => node.msg.tid = tid

/-- The timer is started unless it counts as started. SRCLINE: genie_transport.c:200-204 -/
def checkRetryTimer (s : TransportState) (period : ℕ) : TransportState :=
  if s.timerTimeout = 0 then { s with timerTimeout := period } else s

/-- The new node's name, or `none` for the return value -1. SRCLINE: genie_transport.c:190-198 -/
def transportAppendLocked (s : TransportState) (task : ℕ) (env : TransportEnv)
    (msg : TransportMsg) : Option (Option ℕ × TransportState) :=
  match transportLock s task with
  | none => none
  | some s =>
    match genieTransportMsgNodeGenerate s env msg with
    -- this return leaves the mutex locked
    | none => some (none, s)
    | some node =>
      let s := { s with sendList := s.sendList ++ [node], allocs := s.allocs + 1 }
      some (some node.id, transportUnlock (s.record [.append node.id msg.retry]) task)

/-- SRCLINE: genie_transport.c:179-207 -/
def genieTransportAppendMesg (s : TransportState) (task : ℕ) (env : TransportEnv)
    (msg : TransportMsg) : Option (Option ℕ × TransportState) :=
  if vendorSendMsgMax ≤ s.sendList.length then some (none, s)
  else
    match transportAppendLocked s task env msg with
    | none => none
    | some (none, s) => some (none, s)
    | some (some id, s) => some (some id, checkRetryTimer s msg.retryPeriod)

/-- SRCLINE: genie_transport.c:287-306 -/
def transportRemoveLocked (s : TransportState) (task : ℕ) (tid : UInt8) : Option TransportState :=
  match transportLock s task with
  | none => none
  | some s =>
    match genieTransportFindByTid s tid with
    | some node =>
      -- this return leaves the mutex locked
      some ({ s with sendList := s.sendList.eraseP fun node => node.msg.tid = tid }.record
        [.remove node.id])
    | none => some (transportUnlock s task)

/-- SRCLINE: genie_transport.c:277-307 -/
def transportRemoveByTid (s : TransportState) (task : ℕ) (tid : UInt8) : Option TransportState :=
  if s.sendList = [] then some s else transportRemoveLocked s task tid

/-- SRCLINE: genie_transport.c:414-432 -/
def genieTransportGenTid (s : TransportState) (env : TransportEnv) : UInt8 × TransportState :=
  let tid := if s.genTid = genieTransportTidMax then env.rand &&& 0x3F else (s.genTid + 1) &&& 0x3F
  (tid ||| 0x80, { s with genTid := tid })

/-- The operations that `genie_transport_send_model` sends. -/
def transportOps : List UInt8 :=
  [vendorOpAttrSetAck, vendorOpAttrStatus, vendorOpAttrIndicate, vendorOpAttrIndicateTg,
    vendorOpAttrTransMsg, vendorOpAttrTransIndicate]

/-- A message that carries a device tid is dropped when its tid is out of range. -/
def tidOutOfRange (msg : TransportMsg) : Prop :=
  (msg.opid = vendorOpAttrIndicate ∨ msg.opid = vendorOpAttrTransIndicate) ∧
    (msg.tid < genieTransportTidMin ∨ genieTransportTidMax < msg.tid)

instance (msg : TransportMsg) : Decidable (tidOutOfRange msg) :=
  inferInstanceAs (Decidable (_ ∧ _))

/-- Whether a message is listed for retransmission. -/
def wantsAppend (msg : TransportMsg) : Prop :=
  msg.opid ≠ vendorOpAttrStatus ∧ msg.opid ≠ vendorOpAttrTransMsg ∧ 0 < msg.retryPeriod

instance (msg : TransportMsg) : Decidable (wantsAppend msg) :=
  inferInstanceAs (Decidable (_ ∧ _))

/-- An older message with the tid is removed. SRCLINE: genie_transport.c:352-355 -/
def transportRemoveOld (s : TransportState) (task : ℕ) (tid : UInt8) : Option TransportState :=
  if (genieTransportFindByTid s tid).isSome then transportRemoveByTid s task tid else some s

/-- The message is appended for retransmission and sent for the first time.
SRCLINE: genie_transport.c:357-368 -/
def transportFirstSend (s : TransportState) (task : ℕ) (env : TransportEnv) (msg : TransportMsg) :
    Option (ℤ × TransportState) :=
  if wantsAppend msg then
    match genieTransportAppendMesg s task env msg with
    | none => none
    | some (id, s) => some (env.modelSend, s.record [.transmit id msg.tid])
  else some (env.modelSend, s.record [.transmit none msg.tid])

/-- The part of `genie_transport_send_model` after the tid is known. -/
def transportSendTid (s : TransportState) (task : ℕ) (env : TransportEnv) (msg : TransportMsg) :
    Option (ℤ × TransportState) :=
  match transportRemoveOld s task msg.tid with
  | none => none
  | some s => transportFirstSend s task env msg

/-- SRCLINE: genie_transport.c:314-380 -/
def genieTransportSendModel (s : TransportState) (task : ℕ) (env : TransportEnv)
    (msg : TransportMsg) : Option (ℤ × TransportState) :=
  if msg.data = [] ∨ env.provisioned = false then some (-1, s)
  else if msg.opid ∈ transportOps then
    let (tid, s) := if msg.tid = 0 then genieTransportGenTid s env else (msg.tid, s)
    let msg := { msg with tid := tid }
    if tidOutOfRange msg then some (-1, s) else transportSendTid s task env msg
  else some (-1, s)

/-- The walk of `retransmit_timer_cb` over the nodes from number `k` on: the nodes that stay, what
happens, and `nearest`. SRCLINE: genie_transport.c:478-521 -/
def retransmitLoop (uptime : ℕ → ℤ) :
    ℕ → List TransportNode → ℕ → List TransportNode × List TxEvent × ℕ
  | _, [], nearest => ([], [], nearest)
  | k, node :: rest, _ =>
    let nearest := node.msg.retryPeriod
    if node.timeout ≤ uptime (2 * k) then
      if node.leftRetry = 0 then
        -- the walk ends with the node that is given up
        (rest, (if node.msg.resultCb then [.result node.id .timeout] else []) ++ [.remove node.id],
          nearest)
      else
        let (nodes, es, nearest) := retransmitLoop uptime (k + 1) rest nearest
        ({ node with
            leftRetry := node.leftRetry - 1
            timeout := uptime (2 * k + 1) + node.msg.retryPeriod } :: nodes,
          .transmit (some node.id) node.msg.tid :: es, nearest)
    else
      let nearest := if node.timeout < nearest then (node.timeout % 2 ^ 32).toNat else nearest
      let (nodes, es, nearest) := retransmitLoop uptime (k + 1) rest nearest
      (node :: nodes, es, nearest)

/-- What the walk does, and `nearest`. SRCLINE: genie_transport.c:477-521 -/
def retransmitLocked (s : TransportState) (task : ℕ) (env : TransportEnv) :
    Option (ℕ × TransportState) :=
  match transportLock s task with
  | none => none
  | some s =>
    let (nodes, es, nearest) := retransmitLoop env.uptime 0 s.sendList 0
    some (nearest, transportUnlock ({ s with sendList := nodes }.record es) task)

/-- SRCLINE: genie_transport.c:523-533 -/
def startRetryTimer (s : TransportState) (nearest : ℕ) : TransportState :=
  { s with timerTimeout := if s.sendList = [] then 0 else nearest }

/-- SRCLINE: genie_transport.c:461-535 -/
def retransmitTimerCb (s : TransportState) (task : ℕ) (env : TransportEnv) :
    Option TransportState :=
  match retransmitLocked s task env with
  | none => none
  | some (nearest, s) => some (startRetryTimer s nearest)

/-- SRCLINE: genie_transport.c:559-578 -/
def transportAckLocked (s : TransportState) (task : ℕ) (tid : UInt8) : Option TransportState :=
  match transportLock s task with
  | none => none
  | some s =>
    match genieTransportFindByTid s tid with
    | some node =>
      let s := { s with sendList := s.sendList.eraseP fun node => node.msg.tid = tid }
      let es := if node.msg.resultCb then [.result node.id .success] else []
      some (transportUnlock (s.record (es ++ [.remove node.id])) task)
    | none => some (transportUnlock s task)

/-- SRCLINE: genie_transport.c:545-581 -/
def genieTransportAck (s : TransportState) (task : ℕ) (tid : UInt8) : Option TransportState :=
  if s.sendList = [] then some s else transportAckLocked s task tid

inductive TransportCall
  | sendModel (msg : TransportMsg)
  | appendMesg (msg : TransportMsg)
  | removeByTid (tid : UInt8)
  | retransmitTimerCb
  | ack (tid : UInt8)
  deriving DecidableEq, Repr

/-- A call that `task` makes. -/
structure TransportAct where
  task : ℕ
  env : TransportEnv
  call : TransportCall

/-- A call with no other task in between; `transportTaskStep` has the places where others come in. `none` while the call
waits for the mutex. -/
def transportStep (s : TransportState) (a : TransportAct) : Option TransportState :=
  match a.call with
  | .sendModel msg => (genieTransportSendModel s a.task a.env msg).map Prod.snd
  | .appendMesg msg => (genieTransportAppendMesg s a.task a.env msg).map Prod.snd
  | .removeByTid tid => transportRemoveByTid s a.task tid
  | .retransmitTimerCb => retransmitTimerCb s a.task a.env
  | .ack tid => genieTransportAck s a.task tid

end GenieSdk.Model
