import GenieSdk.Model.RingBuf
import Mathlib.Logic.Function.Basic

/-!
# The buffer queue of `k_buf_queue.c`

The queue together with the part of the kernel its calls touch: the tasks that may wait on
it, the list of blocked receivers ordered by priority (`k_pend.c`), and the time-out of a
blocked receiver (`k_tick.c`). A receive that blocks is two steps, the call
(`krhinoBufQueueRecv`, which pends) and the code after the task runs again
(`bufQueueRecvEnd`), so that sends, time-outs and other receives may come in between.
-/

set_option autoImplicit false

namespace GenieSdk.Model

open GenieSdk.Lib

/-- The type tag of a blocking object, as far as the queue tests it. -/
inductive ObjType
  | none
  | bufQueue
  deriving DecidableEq, Repr

/-- Where a task stands with respect to a receive: outside any call, pended on the queue
(`K_PEND`), or made ready again and about to run the end of the call. -/
inductive RecvState
  | idle
  | pend
  | ready
  deriving DecidableEq, Repr

/-- The fields of `ktask_t` the queue uses. `msg` is what has been copied to the receive
buffer, `timed` says whether the task is also in the tick list. -/
structure KTask where
  prio : ℕ
  state : RecvState
  timed : Bool
  blkState : BlkState
  msg : List UInt8
  bqMsgSize : ℕ
  deriving DecidableEq, Repr

/-- `kbuf_queue_t` (k_buf_queue.h), with the list of blocked tasks. -/
structure KBufQueue where
  objType : ObjType
  blkList : List ℕ
  ringbuf : KRingBuf
  maxMsgSize : ℕ
  curNum : ℕ
  peakNum : ℕ
  minFreeBufSize : ℕ
  deriving DecidableEq, Repr

/-- The queue, the memory of its ring buffer and the tasks. -/
structure BqState where
  queue : KBufQueue
  mem : Mem
  tasks : ℕ → KTask

/-- `buf_queue_create` (k_buf_queue.c:9-50). -/
def bufQueueCreate (buf size maxMsg : ℕ) (type : RingBufType) : KStat × Option KBufQueue :=
  if maxMsg = 0 then (.invParam, none)
  else if size = 0 then (.bufQueueSizeZero, none)
  else
    let ringbuf := ringbufInit buf size type maxMsg
    (.success, some
      { objType := .bufQueue, blkList := [], ringbuf := ringbuf, maxMsgSize := maxMsg,
        curNum := 0, peakNum := 0, minFreeBufSize := ringbuf.freesize })

/-- `krhino_buf_queue_create` (k_buf_queue.c:52-56). -/
def krhinoBufQueueCreate (buf size maxMsg : ℕ) : KStat × Option KBufQueue :=
  bufQueueCreate buf size maxMsg .dyn

/-- `krhino_fix_buf_queue_create` (k_buf_queue.c:58-62); the product is one of `size_t`. -/
def krhinoFixBufQueueCreate (buf msgSize msgNum : ℕ) : KStat × Option KBufQueue :=
  bufQueueCreate buf (msgSize * msgNum % sizeRange) msgSize .fix

/-- `pend_task_wakeup` (k_pend.c:22-48) on a pended task. -/
def pendTaskWakeup (s : BqState) (task : ℕ) : BqState :=
  { s with
    queue := { s.queue with blkList := s.queue.blkList.erase task }
    tasks := Function.update s.tasks task
      { s.tasks task with state := .ready, timed := false, blkState := .finish } }

/-- `pend_to_blk_obj` (k_pend.c:50-70) on the queue, whose policy is by priority. -/
def pendToBlkObj (s : BqState) (task : ℕ) (timed : Bool) : BqState :=
  { s with
    queue := { s.queue with
      blkList := pendListAdd (fun t => (s.tasks t).prio) task s.queue.blkList }
    tasks := Function.update s.tasks task { s.tasks task with state := .pend, timed := timed } }

/-- `buf_queue_send` (k_buf_queue.c:190-268); `msg` are the bytes from the message pointer
on. The second component is the task the message was handed to, if any. -/
def bufQueueSend (s : BqState) (msg : Mem) (msgSize : ℕ) : (KStat × Option ℕ) × BqState :=
  if s.queue.objType ≠ .bufQueue then ((.kobjTypeErr, none), s)
  else if s.queue.maxMsgSize < msgSize then ((.bufQueueMsgSizeOverflow, none), s)
  else if msgSize = 0 then ((.invParam, none), s)
  else
    match s.queue.blkList with
    | [] =>
      match ringbufPush s.queue.ringbuf s.mem msg msgSize with
      | (.success, ringbuf, mem) =>
        let curNum := s.queue.curNum + 1
        ((.success, none),
          { s with
            mem := mem
            queue := { s.queue with
              ringbuf := ringbuf
              curNum := curNum
              peakNum := max s.queue.peakNum curNum
              minFreeBufSize := min s.queue.minFreeBufSize ringbuf.freesize } })
      | (.ringbufFull, _, _) => ((.bufQueueFull, none), s)
      | (err, _, _) => ((err, none), s)
    | task :: _ =>
      let s := { s with
        tasks := Function.update s.tasks task
          { s.tasks task with msg := readBytes msg 0 msgSize, bqMsgSize := msgSize } }
      ((.success, some task), pendTaskWakeup s task)

/-- What the call of a receive gives: a status with the bytes copied to the caller's buffer
and the value stored at `size` (`none` where nothing is stored), or a blocked caller. -/
inductive RecvOut
  | returned (stat : KStat) (msg : List UInt8) (size : Option ℕ)
  | pended
  deriving DecidableEq, Repr

/-- `RHINO_NO_WAIT` and `RHINO_WAIT_FOREVER` (k_sys.h). -/
def rhinoNoWait : ℕ := 0

def rhinoWaitForever : ℕ := 2 ^ 64 - 1

/-- `krhino_buf_queue_recv` (k_buf_queue.c:278-328) up to the point where the caller blocks;
`nested` and `schedLock` are the interrupt nesting level and the scheduler lock count. -/
def krhinoBufQueueRecv (s : BqState) (task ticks nested schedLock : ℕ) : RecvOut × BqState :=
  if 0 < nested ∧ ticks ≠ rhinoNoWait then (.returned .notCalledByIntrpt [] none, s)
  else if s.queue.objType ≠ .bufQueue then (.returned .kobjTypeErr [] none, s)
  else if ringbufIsEmpty s.queue.ringbuf = false then
    match ringbufPop s.queue.ringbuf s.mem with
    | (_, some (msg, size), ringbuf) =>
      (.returned .success msg (some size),
        { s with queue := { s.queue with ringbuf := ringbuf, curNum := s.queue.curNum - 1 } })
    | (stat, none, _) => (.returned stat [] none, s)
  else if ticks = rhinoNoWait then (.returned .noPendWait [] (some 0), s)
  else if 0 < schedLock then (.returned .schedDisable [] (some 0), s)
  else (.pended, pendToBlkObj s task (decide (ticks ≠ rhinoWaitForever)))

/-- The task leaves its receive. -/
def BqState.endRecv (s : BqState) (task : ℕ) : BqState :=
  { s with tasks := Function.update s.tasks task { s.tasks task with state := .idle } }

/-- The end of a blocked receive (k_buf_queue.c:330-348). -/
def bufQueueRecvEnd (s : BqState) (task : ℕ) : RecvOut × BqState :=
  let t := s.tasks task
  match pendStateEndProc t.blkState with
  | .success => (.returned .success t.msg (some t.bqMsgSize), s.endRecv task)
  | stat => (.returned stat [] (some 0), s.endRecv task)

/-- The time-out of a task pended with a finite number of ticks: `tick_list_update`
(k_tick.c:57-130), case `K_PEND`. -/
def bufQueueTimeout (s : BqState) (task : ℕ) : BqState :=
  { s with
    queue := { s.queue with blkList := s.queue.blkList.erase task }
    tasks := Function.update s.tasks task
      { s.tasks task with state := .ready, timed := false, blkState := .timeout } }

end GenieSdk.Model
