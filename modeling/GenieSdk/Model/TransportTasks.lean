import GenieSdk.Model.Transport

/-!
# Tasks in the vendor message transport

`genie_transport_send_model` looks for its tid and at the length of `send_list` before it takes `transport_mutex`, and
transmits after it has given it back; `genie_transport_ack` and the timer look at the list outside the mutex too. A
task stands at one of the places where another one may come in between, and a step lets it go on to the next one. What
it does under the mutex is one step: it waits for nothing there, and nobody else writes the list.
-/

set_option autoImplicit false

namespace GenieSdk.Model

/-- What a task does next. `msg` has its tid, and `id` is the name of the node it was appended as. -/
inductive TransportPc
  | idle
  | findByTid (msg : TransportMsg)
  | removeTest (msg : TransportMsg)
  | removeLock (msg : TransportMsg)
  | appendTest (msg : TransportMsg)
  | appendLock (msg : TransportMsg)
  | checkTimer (id : ℕ) (msg : TransportMsg)
  | modelSend (id : Option ℕ) (msg : TransportMsg)
  | ackLock (tid : UInt8)
  | timerLock
  | timerStart (nearest : ℕ)
  deriving DecidableEq, Repr

/-- The list with what belongs to it, and where the tasks are. -/
structure TransportTasks where
  shared : TransportState
  pc : ℕ → TransportPc

/-- The calls from outside. -/
inductive TransportEntry
  | sendModel (msg : TransportMsg)
  | ack (tid : UInt8)
  | retransmitTimerCb
  deriving DecidableEq, Repr

/-- What a call does at first. SRCLINE: genie_transport.c:314-350, 552-555 -/
def transportEnter (s : TransportState) (env : TransportEnv) : TransportEntry → TransportPc × TransportState
  | .sendModel msg =>
    if msg.data = [] ∨ env.provisioned = false then (.idle, s)
    else if msg.opid ∈ transportOps then
      let (tid, s) := if msg.tid = 0 then genieTransportGenTid s env else (msg.tid, s)
      let msg := { msg with tid := tid }
      (if tidOutOfRange msg then .idle else .findByTid msg, s)
    else (.idle, s)
  | .ack tid => (if s.sendList = [] then .idle else .ackLock tid, s)
  | .retransmitTimerCb => (.timerLock, s)

/-- Where a message goes on once an older one is out of the way. SRCLINE: genie_transport.c:357-369 -/
def afterRemove (msg : TransportMsg) : TransportPc := if wantsAppend msg then .appendTest msg else .modelSend none msg

/-- Where a task goes on, and what it does on the way; `none` while it waits for the mutex.
SRCLINE: genie_transport.c:184-204, 281-306, 352-369, 477-533, 559-578 -/
def transportGo (s : TransportState) (task : ℕ) (env : TransportEnv) :
    TransportPc → Option (TransportPc × TransportState)
  | .idle => none
  | .findByTid msg => some (if (genieTransportFindByTid s msg.tid).isSome then .removeTest msg else afterRemove msg, s)
  | .removeTest msg => some (if s.sendList = [] then afterRemove msg else .removeLock msg, s)
  | .removeLock msg => (transportRemoveLocked s task msg.tid).map fun s => (afterRemove msg, s)
  | .appendTest msg =>
    some (if vendorSendMsgMax ≤ s.sendList.length then .modelSend none msg else .appendLock msg, s)
  | .appendLock msg =>
    match transportAppendLocked s task env msg with
    | none => none
    | some (none, s) => some (.modelSend none msg, s)
    | some (some id, s) => some (.checkTimer id msg, s)
  | .checkTimer id msg => some (.modelSend (some id) msg, checkRetryTimer s msg.retryPeriod)
  | .modelSend id msg => some (.idle, s.record [.transmit id msg.tid])
  | .ackLock tid => (transportAckLocked s task tid).map fun s => (.idle, s)
  | .timerLock => (retransmitLocked s task env).map fun r => (.timerStart r.1, r.2)
  | .timerStart nearest => some (.idle, startRetryTimer s nearest)

/-- A task that is in no call makes one, or a task goes on with its call. -/
inductive TransportMove
  | enter (entry : TransportEntry)
  | go
  deriving DecidableEq, Repr

structure TransportTaskAct where
  task : ℕ
  env : TransportEnv
  move : TransportMove

def TransportTasks.set (t : TransportTasks) (task : ℕ) (r : TransportPc × TransportState) : TransportTasks :=
  ⟨r.2, Function.update t.pc task r.1⟩

def transportTaskStep (t : TransportTasks) (a : TransportTaskAct) : Option TransportTasks :=
  match a.move with
  | .enter entry => if t.pc a.task = .idle then some (t.set a.task (transportEnter t.shared a.env entry)) else none
  | .go => (transportGo t.shared a.task a.env (t.pc a.task)).map (t.set a.task)

/-- No task is in a call. -/
def transportTasksInit : TransportTasks := ⟨genieTransportInit, fun _ => .idle⟩

end GenieSdk.Model
