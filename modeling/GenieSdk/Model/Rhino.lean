import GenieSdk.Model.Kernel
import GenieSdk.Model.RunQueue

/-!
# Tasks and mutexes

The single-core kernel: `k_task.c`, `k_mutex.c`, `k_pend.c`, `k_tick.c` and the scheduler of
`k_sched.c`. Tasks and objects are numbered. Of the objects a task can block on, mutexes are
modelled in full; a semaphore, queue or event is an object on which the active task pends, whose
waiters are woken, and which is deleted.

A call yields the new state and its status, or no status if the caller blocks. The result `none`
means that the call reaches `k_err_proc`, follows a null pointer, or has not ended after `fuel`
rounds of a loop. `RHINO_CRITICAL_EXIT_SCHED` enables the interrupts and then calls `core_sched`,
so `coreSched` is a step of its own.
-/

set_option autoImplicit false

namespace GenieSdk.Model.Rhino

/-- `task_stat_t` -/
inductive TaskStat
  | seed
  | rdy
  | pend
  | suspended
  | pendSuspended
  | sleep
  | sleepSuspended
  | deleted
  deriving DecidableEq, Repr

/-- `kobj_type_t`; `other` is any type but a mutex that tasks block on. -/
inductive KobjType
  | none
  | mutex
  | other
  deriving DecidableEq, Repr

/-- `blk_policy_t` -/
inductive BlkPolicy
  | pri
  | fifo
  deriving DecidableEq, Repr

/-- `RHINO_WAIT_FOREVER` -/
def waitForever : ℕ := 2 ^ 64 - 1

/-- `SCHED_MAX_LOCK_COUNT` -/
def schedMaxLockCount : ℕ := 200

/-- `RHINO_CONFIG_TIME_SLICE_DEFAULT` -/
def timeSliceDefault : ℕ := 50

/-- `ktask_t`. `tickHead` is `tick_head != NULL`. `waitTicks` is the timeout of the task's last
pend; no function reads it. -/
structure KTask where
  taskState : TaskStat
  blkState : BlkState
  prio : ℕ
  bPrio : ℕ
  suspendCount : ℕ
  mutexList : Option ℕ
  blkObj : Option ℕ
  tickMatch : ℕ
  tickRemain : ℕ
  tickHead : Bool
  timeSlice : ℕ
  timeTotal : ℕ
  schedFifo : Bool
  mmAllocFlag : AllocFlag
  waitTicks : ℕ
  deriving DecidableEq, Repr

/-- `blk_obj_t`, with the fields of `kmutex_t`. -/
structure KObj where
  objType : KobjType
  blkPolicy : BlkPolicy
  blkList : List ℕ
  mutexTask : Option ℕ
  mutexList : Option ℕ
  ownerNested : ℕ
  mmAllocFlag : AllocFlag
  deriving DecidableEq, Repr

/-- What happens to the ownership of mutexes: a task obtains a mutex once more or undoes one lock,
a task or a mutex is deleted. -/
inductive LockEvent
  | lock (task mutex : ℕ)
  | unlock (task mutex : ℕ)
  | taskDel (task : ℕ)
  | mutexDel (mutex : ℕ)
  deriving DecidableEq, Repr

/-- The kernel's global variables, and a log. -/
structure Kern where
  tasks : ℕ → KTask
  objs : ℕ → KObj
  rq : RunQueue
  tickList : List ℕ
  tickCount : ℕ
  active : ℕ
  schedLock : ℕ
  intrptLevel : ℕ
  log : List LockEvent

/-- Storage that holds no task, after `memset`. -/
def KTask.zero : KTask where
  taskState := .seed
  blkState := .finish
  prio := 0
  bPrio := 0
  suspendCount := 0
  mutexList := none
  blkObj := none
  tickMatch := 0
  tickRemain := 0
  tickHead := false
  timeSlice := 0
  timeTotal := 0
  schedFifo := true
  mmAllocFlag := .staticAlloc
  waitTicks := 0

/-- Storage that holds no object. -/
def KObj.zero : KObj where
  objType := .none
  blkPolicy := .pri
  blkList := []
  mutexTask := none
  mutexList := none
  ownerNested := 0
  mmAllocFlag := .staticAlloc

/-- `g_idle_task` -/
def idleTask : ℕ := 0

/-- `g_res_sem` -/
def resSem : ℕ := 0

/-- The kernel as `krhino_start` leaves it, with the idle task alone.
SRCLINE: k_sys.c:22-75, 77-109 -/
def krhinoStart : Kern where
  tasks := Function.update (fun _ => KTask.zero) idleTask
    { KTask.zero with
      taskState := .rdy, prio := idlePri, bPrio := idlePri
      timeSlice := timeSliceDefault, timeTotal := timeSliceDefault, schedFifo := false }
  objs := Function.update (fun _ => KObj.zero) resSem { KObj.zero with objType := .other }
  rq := readyListAddTail runqueueInit idleTask idlePri
  tickList := []
  tickCount := 0
  active := idleTask
  schedLock := 0
  intrptLevel := 0
  log := []

/-- Write one task. -/
def Kern.setTask (s : Kern) (task : ℕ) (t : KTask) : Kern :=
  { s with tasks := Function.update s.tasks task t }

/-- Write one object. -/
def Kern.setObj (s : Kern) (obj : ℕ) (o : KObj) : Kern :=
  { s with objs := Function.update s.objs obj o }

def Kern.record (s : Kern) (e : LockEvent) : Kern := { s with log := s.log ++ [e] }

/-- `ready_list_add(&g_ready_queue, task)` -/
def Kern.readyAdd (s : Kern) (task : ℕ) : Kern :=
  { s with rq := readyListAdd s.rq task (s.tasks task).prio (s.tasks s.active).prio }

/-- `ready_list_rm(&g_ready_queue, task)` -/
def Kern.readyRm (s : Kern) (task : ℕ) : Option Kern :=
  (readyListRm s.rq task (s.tasks task).prio).map fun rq => { s with rq := rq }

/-- `klist_rm(&task->task_list)` of a task that is in the list of the object it is blocked on -/
def blkListRm (s : Kern) (task : ℕ) : Kern :=
  match (s.tasks task).blkObj with
  | none => s
  | some obj => s.setObj obj { s.objs obj with blkList := (s.objs obj).blkList.erase task }

/-- SRCLINE: k_tick.c:12-31 -/
def tickListPriInsert (s : Kern) (task val : ℕ) : List ℕ → List ℕ
  | [] => [task]
  | q :: rest =>
    if val < subTime (s.tasks q).tickMatch s.tickCount then task :: q :: rest
    else q :: tickListPriInsert s task val rest

/-- SRCLINE: k_tick.c:33-45 -/
def tickListInsert (s : Kern) (task time : ℕ) : Kern :=
  if 0 < time then
    let s := s.setTask task { s.tasks task with
      tickMatch := addTime s.tickCount time, tickRemain := time, tickHead := true }
    { s with tickList := tickListPriInsert s task time s.tickList }
  else s

/-- SRCLINE: k_tick.c:47-55 -/
def tickListRm (s : Kern) (task : ℕ) : Kern :=
  if (s.tasks task).tickHead then
    { s with tickList := s.tickList.erase task }.setTask task
      { s.tasks task with tickHead := false }
  else s

/-- What `pend_task_wakeup` and `pend_task_rm` have in common; `blkState` is the reason.
SRCLINE: k_pend.c:22-48, 73-99 -/
def pendTaskEnd (s : Kern) (task : ℕ) (blkState : BlkState) : Option Kern :=
  match (s.tasks task).taskState with
  | .pend =>
    let s := (blkListRm s task).readyAdd task
    let s := tickListRm (s.setTask task { s.tasks task with taskState := .rdy }) task
    some (s.setTask task { s.tasks task with blkState := blkState, blkObj := none })
  | .pendSuspended =>
    let s := blkListRm s task
    let s := tickListRm (s.setTask task { s.tasks task with taskState := .suspended }) task
    some (s.setTask task { s.tasks task with blkState := blkState, blkObj := none })
  | _ => none

/-- SRCLINE: k_pend.c:22-48 -/
def pendTaskWakeup (s : Kern) (task : ℕ) : Option Kern := pendTaskEnd s task .finish

/-- SRCLINE: k_pend.c:73-99 -/
def pendTaskRm (s : Kern) (task : ℕ) : Option Kern := pendTaskEnd s task .del

/-- The list of an object with a task added as its policy says. SRCLINE: k_pend.c:64-70 -/
def blkListAdd (s : Kern) (obj task : ℕ) : Kern :=
  let o := s.objs obj
  s.setObj obj { o with
    blkList :=
      if o.blkPolicy = .fifo then o.blkList ++ [task]
      else pendListAdd (fun t => (s.tasks t).prio) task o.blkList }

/-- SRCLINE: k_pend.c:50-71 -/
def pendToBlkObj (s : Kern) (obj task timeout : ℕ) : Option Kern :=
  let s := s.setTask task { s.tasks task with blkObj := some obj, waitTicks := timeout }
  let s := if timeout ≠ waitForever then tickListInsert s task timeout else s
  match (s.setTask task { s.tasks task with taskState := .pend }).readyRm task with
  | none => none
  | some s => some (blkListAdd s obj task)

/-- SRCLINE: k_pend.c:101-108 -/
def pendListReorder (s : Kern) (obj task : ℕ) : Kern :=
  if (s.objs obj).blkPolicy = .pri then blkListAdd (blkListRm s task) obj task else s

/-- The priority of the first task blocked on a mutex, if any. -/
def firstBlkPrio (s : Kern) (mutex pri : ℕ) : ℕ :=
  match (s.objs mutex).blkList with
  | [] => pri
  | task :: _ => (s.tasks task).prio

/-- The loop of `mutex_pri_limit`. SRCLINE: k_mutex.c:195-208 -/
def mutexPriLimitLoop (s : Kern) : ℕ → Option ℕ → ℕ → ℕ → Option ℕ
  | 0, _, _, _ => none
  | _ + 1, none, _, highPri => some highPri
  | fuel + 1, some mutex, pri, highPri =>
    let pri := firstBlkPrio s mutex pri
    mutexPriLimitLoop s fuel (s.objs mutex).mutexList pri (if pri < highPri then pri else highPri)

/-- SRCLINE: k_mutex.c:186-211 -/
def mutexPriLimit (fuel : ℕ) (s : Kern) (task pri : ℕ) : Option ℕ :=
  mutexPriLimitLoop s fuel (s.tasks task).mutexList pri pri

/-- The address of a `mutex_list` field: of a task or of a mutex. -/
inductive MutexListPtr
  | ofTask (task : ℕ)
  | ofMutex (mutex : ℕ)
  deriving DecidableEq, Repr

def Kern.readPtr (s : Kern) : MutexListPtr → Option ℕ
  | .ofTask task => (s.tasks task).mutexList
  | .ofMutex mutex => (s.objs mutex).mutexList

def Kern.writePtr (s : Kern) (p : MutexListPtr) (v : Option ℕ) : Kern :=
  match p with
  | .ofTask task => s.setTask task { s.tasks task with mutexList := v }
  | .ofMutex mutex => s.setObj mutex { s.objs mutex with mutexList := v }

/-- The loop of `mutex_pri_look`. SRCLINE: k_mutex.c:229-247 -/
def mutexPriLookLoop (mutexRel : Option ℕ) :
    ℕ → Kern → MutexListPtr → ℕ → ℕ → Option (ℕ × Kern)
  | 0, _, _, _, _ => none
  | fuel + 1, s, prev, pri, newPri =>
    match s.readPtr prev with
    | none => some (newPri, s)
    | some mutex =>
      if mutexRel = some mutex then
        mutexPriLookLoop mutexRel fuel (s.writePtr prev (s.objs mutex).mutexList) prev pri newPri
      else
        let pri := firstBlkPrio s mutex pri
        mutexPriLookLoop mutexRel fuel s (.ofMutex mutex) pri (if pri < newPri then pri else newPri)

/-- SRCLINE: k_mutex.c:213-250 -/
def mutexPriLook (fuel : ℕ) (s : Kern) (task : ℕ) (mutexRel : Option ℕ) : Option (ℕ × Kern) :=
  mutexPriLookLoop mutexRel fuel s (.ofTask task) (s.tasks task).bPrio (s.tasks task).bPrio

/-- A task's own place changes with its priority; the `K_RDY` case. SRCLINE: k_task.c:519-530 -/
def taskPriReady (s : Kern) (task newPri : ℕ) : Option Kern :=
  match s.readyRm task with
  | none => none
  | some s =>
    let s := s.setTask task { s.tasks task with prio := newPri }
    some { s with
      rq := if task = s.active then readyListAddHead s.rq task newPri
        else readyListAddTail s.rq task newPri }

/-- Each round gives one task its new priority and goes on with the owner of the mutex the task is
blocked on. SRCLINE: k_task.c:510-581 -/
def taskPriChange : ℕ → Kern → ℕ → ℕ → Option Kern
  | 0, _, _, _ => none
  | fuel + 1, s, task, newPri =>
    if (s.tasks task).prio = newPri then some s
    else
      match (s.tasks task).taskState with
      | .rdy => taskPriReady s task newPri
      | .sleep => some (s.setTask task { s.tasks task with prio := newPri })
      | .suspended => some (s.setTask task { s.tasks task with prio := newPri })
      | .sleepSuspended => some (s.setTask task { s.tasks task with prio := newPri })
      | .seed => none
      | .deleted => none
      | _ =>
        -- `K_PEND` and `K_PEND_SUSPENDED`
        let oldPri := (s.tasks task).prio
        match (s.tasks task).blkObj with
        | none => none
        | some obj =>
          let s := pendListReorder (s.setTask task { s.tasks task with prio := newPri }) obj task
          if (s.objs obj).objType = .mutex then
            match (s.objs obj).mutexTask with
            | none => none
            | some mutexTask =>
              if newPri < (s.tasks mutexTask).prio then taskPriChange fuel s mutexTask newPri
              else if (s.tasks mutexTask).prio = oldPri then
                match mutexPriLook fuel s mutexTask none with
                | none => none
                | some (lookPri, s) =>
                  if lookPri ≠ (s.tasks mutexTask).prio then taskPriChange fuel s mutexTask lookPri
                  else some s
              else some s
          else some s

/-- SRCLINE: k_mutex.c:40-53 -/
def mutexRelease (fuel : ℕ) (s : Kern) (task : ℕ) (mutexRel : Option ℕ) : Option Kern :=
  match mutexPriLook fuel s task mutexRel with
  | none => none
  | some (newPri, s) =>
    if newPri ≠ (s.tasks task).prio then taskPriChange fuel s task newPri else some s

/-- SRCLINE: k_mutex.c:252-266 -/
def mutexTaskPriReset (fuel : ℕ) (s : Kern) (task : ℕ) : Option Kern :=
  match (s.tasks task).blkObj with
  | none => none
  | some obj =>
    if (s.objs obj).objType = .mutex then
      match (s.objs obj).mutexTask with
      | none => none
      | some mutexTask =>
        if (s.tasks mutexTask).prio = (s.tasks task).prio then mutexRelease fuel s mutexTask none
        else some s
    else some s

/-- The mutex comes to a task that does not own it. SRCLINE: k_mutex.c:312-314, 424-426 -/
def mutexHandTo (s : Kern) (mutex task : ℕ) : Kern :=
  let s := s.setObj mutex { s.objs mutex with
    mutexTask := some task, mutexList := (s.tasks task).mutexList }
  (s.setTask task { s.tasks task with mutexList := some mutex }).record (.lock task mutex)

/-- Storage is used again only when its mutex is deleted. SRCLINE: k_mutex.c:7-33 -/
def mutexCreate (s : Kern) (mutex : ℕ) (mmAllocFlag : AllocFlag) : Option Kern :=
  if (s.objs mutex).objType ≠ .none then none
  else
    some (s.setObj mutex { s.objs mutex with
      objType := .mutex, blkPolicy := .pri, blkList := [], mutexTask := none, mutexList := none
      mmAllocFlag := mmAllocFlag })

/-- `while (!is_klist_empty(blk_list_head)) pend_task_rm(...)` -/
def pendTaskRmAll : ℕ → Kern → ℕ → Option Kern
  | 0, _, _ => none
  | fuel + 1, s, obj =>
    match (s.objs obj).blkList with
    | [] => some s
    | task :: _ =>
      match pendTaskRm s task with
      | none => none
      | some s => pendTaskRmAll fuel s obj

/-- `krhino_mutex_del` and `krhino_mutex_dyn_del`, which ask for different flags.
SRCLINE: k_mutex.c:55-103, 133-183 -/
def mutexDel (fuel : ℕ) (s : Kern) (mutex : ℕ) (mmAllocFlag : AllocFlag) :
    Option (KStat × Kern) :=
  if 0 < s.intrptLevel then some (.notCalledByIntrpt, s)
  else if (s.objs mutex).objType ≠ .mutex then some (.kobjTypeErr, s)
  else if (s.objs mutex).mmAllocFlag ≠ mmAllocFlag then some (.kobjDelErr, s)
  else
    let s := (s.setObj mutex { s.objs mutex with objType := .none }).record (.mutexDel mutex)
    let released :=
      match (s.objs mutex).mutexTask with
      | none => some s
      | some mutexTask => mutexRelease fuel s mutexTask (some mutex)
    match released with
    | none => none
    | some s => (pendTaskRmAll fuel s mutex).map fun s => (.success, s)

def krhinoMutexDel (fuel : ℕ) (s : Kern) (mutex : ℕ) : Option (KStat × Kern) :=
  mutexDel fuel s mutex .staticAlloc

def krhinoMutexDynDel (fuel : ℕ) (s : Kern) (mutex : ℕ) : Option (KStat × Kern) :=
  mutexDel fuel s mutex .dynAlloc

/-- SRCLINE: k_mutex.c:268-360 -/
def krhinoMutexLock (fuel : ℕ) (s : Kern) (mutex ticks : ℕ) : Option (Option KStat × Kern) :=
  if 0 < s.intrptLevel then some (some .notCalledByIntrpt, s)
  else if (s.objs mutex).objType ≠ .mutex then some (some .kobjTypeErr, s)
  else
    match (s.objs mutex).mutexTask with
    | none =>
      let s := mutexHandTo s mutex s.active
      some (some .success, s.setObj mutex { s.objs mutex with ownerNested := 1 })
    | some mutexTask =>
      if s.active = mutexTask then
        if (s.objs mutex).ownerNested = 2 ^ 32 - 1 then none
        else
          let s := s.setObj mutex { s.objs mutex with
            ownerNested := (s.objs mutex).ownerNested + 1 }
          some (some .mutexOwnerNested, s.record (.lock s.active mutex))
      else if ticks = 0 then some (some .noPendWait, s)
      else if 0 < s.schedLock then some (some .schedDisable, s)
      else
        let raised :=
          if (s.tasks s.active).prio < (s.tasks mutexTask).prio then
            taskPriChange fuel s mutexTask (s.tasks s.active).prio
          else some s
        match raised with
        | none => none
        | some s => (pendToBlkObj s mutex s.active ticks).map fun s => (none, s)

/-- SRCLINE: k_mutex.c:362-432 -/
def krhinoMutexUnlock (fuel : ℕ) (s : Kern) (mutex : ℕ) : Option (KStat × Kern) :=
  if 0 < s.intrptLevel then some (.notCalledByIntrpt, s)
  else if (s.objs mutex).objType ≠ .mutex then some (.kobjTypeErr, s)
  else if (s.objs mutex).mutexTask ≠ some s.active then some (.mutexNotReleasedByOwner, s)
  else
    -- `owner_nested--` wraps at 0
    let s := (s.setObj mutex { s.objs mutex with
      ownerNested := ((s.objs mutex).ownerNested + (2 ^ 32 - 1)) % 2 ^ 32 }).record
        (.unlock s.active mutex)
    if 0 < (s.objs mutex).ownerNested then some (.mutexOwnerNested, s)
    else
      match mutexRelease fuel s s.active (some mutex) with
      | none => none
      | some s =>
        match (s.objs mutex).blkList with
        | [] => some (.success, s.setObj mutex { s.objs mutex with mutexTask := none })
        | task :: _ =>
          match pendTaskWakeup s task with
          | none => none
          | some s =>
            let s := mutexHandTo s mutex task
            some (.success, s.setObj mutex { s.objs mutex with ownerNested := 1 })

/-- The storage of a new task. SRCLINE: k_task.c:46-77 -/
def newTask (prio ticks : ℕ) (autorun : Bool) (mmAllocFlag : AllocFlag) : KTask :=
  let timeTotal := if 0 < ticks then ticks else timeSliceDefault
  { KTask.zero with
    taskState := if autorun then .rdy else .suspended
    suspendCount := if autorun then 0 else 1
    prio := prio, bPrio := prio, timeSlice := timeTotal, timeTotal := timeTotal
    schedFifo := false, mmAllocFlag := mmAllocFlag }

/-- A task is created where there is none. Its storage is filled before the critical section, when
nobody knows of the task yet. SRCLINE: k_task.c:7-127 -/
def taskCreate (s : Kern) (task prio ticks : ℕ) (autorun : Bool) (mmAllocFlag : AllocFlag) :
    Option (KStat × Kern) :=
  if (s.tasks task).taskState ≠ .seed ∧ (s.tasks task).taskState ≠ .deleted then none
  else if priMax ≤ prio then some (.beyondMaxPri, s)
  else if 0 < s.intrptLevel then some (.notCalledByIntrpt, s)
  else if prio = idlePri then some (.idleTaskExist, s)
  else
    let s := s.setTask task (newTask prio ticks autorun mmAllocFlag)
    some (.success, if autorun then { s with rq := readyListAddTail s.rq task prio } else s)

/-- SRCLINE: k_task.c:242-282 -/
def krhinoTaskSleep (s : Kern) (ticks : ℕ) : Option (Option KStat × Kern) :=
  if ticks = 0 then some (some .invParam, s)
  else if 0 < s.intrptLevel then some (some .notCalledByIntrpt, s)
  else if 0 < s.schedLock then some (some .schedDisable, s)
  else
    let s := s.setTask s.active { s.tasks s.active with taskState := .sleep }
    ((tickListInsert s s.active ticks).readyRm s.active).map fun s => (none, s)

/-- SRCLINE: k_task.c:284-296 -/
def krhinoTaskYield (s : Kern) : Option (KStat × Kern) :=
  (readyListHeadToTail s.rq (s.tasks s.active).prio).map fun rq => (.success, { s with rq := rq })

/-- SRCLINE: k_task.c:310-371 -/
def taskSuspend (s : Kern) (task : ℕ) : Option (KStat × Kern) :=
  let t := s.tasks task
  if task = s.active ∧ 0 < s.schedLock then some (.schedDisable, s)
  else
    match t.taskState with
    | .rdy =>
      ((s.setTask task { t with suspendCount := 1, taskState := .suspended }).readyRm task).map
        fun s => (.success, s)
    | .sleep =>
      some (.success, s.setTask task { t with suspendCount := 1, taskState := .sleepSuspended })
    | .pend =>
      some (.success, s.setTask task { t with suspendCount := 1, taskState := .pendSuspended })
    | .seed => some (.taskInvState, s)
    | .deleted => some (.taskInvState, s)
    | _ =>
      if t.suspendCount = 2 ^ 8 - 1 then some (.suspendedCountOvf, s)
      else some (.success, s.setTask task { t with suspendCount := t.suspendCount + 1 })

/-- SRCLINE: k_task.c:373-384 -/
def krhinoTaskSuspend (s : Kern) (task : ℕ) : Option (KStat × Kern) :=
  if (s.tasks task).prio = idlePri then some (.taskSuspendNotAllowed, s) else taskSuspend s task

/-- `suspend_count--` wraps at 0. SRCLINE: k_task.c:386-442 -/
def krhinoTaskResume (s : Kern) (task : ℕ) : Option (KStat × Kern) :=
  let t := s.tasks task
  let count := (t.suspendCount + (2 ^ 8 - 1)) % 2 ^ 8
  match t.taskState with
  | .suspended =>
    if count = 0 then
      let s := s.setTask task { t with suspendCount := count, taskState := .rdy }
      some (.success, s.readyAdd task)
    else some (.success, s.setTask task { t with suspendCount := count })
  | .sleepSuspended =>
    some (.success, s.setTask task { t with
      suspendCount := count, taskState := if count = 0 then .sleep else .sleepSuspended })
  | .pendSuspended =>
    some (.success, s.setTask task { t with
      suspendCount := count, taskState := if count = 0 then .pend else .pendSuspended })
  | .seed => some (.taskInvState, s)
  | .deleted => some (.taskInvState, s)
  | _ => some (.taskNotSuspended, s)

/-- SRCLINE: k_task.c:583-632 -/
def krhinoTaskPriChange (fuel : ℕ) (s : Kern) (task pri : ℕ) : Option (KStat × Kern) :=
  if idlePri ≤ (s.tasks task).prio then some (.priChgNotAllowed, s)
  else if idlePri ≤ pri then some (.priChgNotAllowed, s)
  else if (s.tasks task).taskState = .deleted then some (.taskInvState, s)
  else if 0 < s.intrptLevel then some (.notCalledByIntrpt, s)
  else
    match mutexPriLimit fuel s task pri with
    | none => none
    | some priLimit =>
      let s := s.setTask task { s.tasks task with bPrio := pri }
      (taskPriChange fuel s task priLimit).map fun s => (.success, s)

/-- The end of a wait by a timeout, an abort or the task's deletion: the task leaves its lists and
the owner of the mutex it waited for gets its priority anew. `taskState` is the new state.
SRCLINE: k_tick.c:91-109, k_task.c:662-674, 787-793 -/
def pendCancel (fuel : ℕ) (s : Kern) (task : ℕ) (taskState : TaskStat) (blkState : BlkState) :
    Option Kern :=
  let s := blkListRm (tickListRm s task) task
  let s := if taskState = .rdy then s.readyAdd task else s
  mutexTaskPriReset fuel
    (s.setTask task { s.tasks task with taskState := taskState, blkState := blkState }) task

/-- `task->blk_obj = NULL` -/
def clearBlkObj (s : Kern) (task : ℕ) : Kern :=
  s.setTask task { s.tasks task with blkObj := none }

/-- SRCLINE: k_task.c:636-691 -/
def krhinoTaskWaitAbort (fuel : ℕ) (s : Kern) (task : ℕ) : Option (KStat × Kern) :=
  if 0 < s.intrptLevel then some (.notCalledByIntrpt, s)
  else
    match (s.tasks task).taskState with
    | .rdy => some (.success, s)
    | .suspended =>
      some (.success, (s.setTask task { s.tasks task with taskState := .rdy }).readyAdd task)
    | .seed => some (.taskInvState, s)
    | .deleted => some (.taskInvState, s)
    | .pend => (pendCancel fuel s task .rdy .abort).map fun s => (.success, clearBlkObj s task)
    | .pendSuspended =>
      (pendCancel fuel s task .rdy .abort).map fun s => (.success, clearBlkObj s task)
    | _ =>
      -- `K_SLEEP` and `K_SLEEP_SUSPENDED`
      let s := (tickListRm s task).readyAdd task
      some (.success, s.setTask task { s.tasks task with taskState := .rdy, blkState := .abort })

/-- SRCLINE: k_task.c:695-724 -/
def taskMutexFree : ℕ → Kern → Option ℕ → Option Kern
  | 0, _, _ => none
  | _ + 1, s, none => some s
  | fuel + 1, s, some mutex =>
    let nextMutex := (s.objs mutex).mutexList
    match (s.objs mutex).blkList with
    | [] => taskMutexFree fuel (s.setObj mutex { s.objs mutex with mutexTask := none }) nextMutex
    | nextTask :: _ =>
      match pendTaskWakeup s nextTask with
      | none => none
      | some s => taskMutexFree fuel (mutexHandTo s mutex nextTask) nextMutex

/-- The `switch` of `krhino_task_del`. SRCLINE: k_task.c:774-798 -/
def taskDelSwitch (fuel : ℕ) (s : Kern) (task : ℕ) : Option (Option Kern) :=
  let delete (s : Kern) : Kern :=
    (s.setTask task { s.tasks task with taskState := .deleted }).record (.taskDel task)
  match (s.tasks task).taskState with
  | .rdy => (s.readyRm task).map fun s => some (delete s)
  | .suspended => some (some (delete s))
  | .seed => some none
  | .deleted => some none
  | .pend =>
    (pendCancel fuel s task .deleted (s.tasks task).blkState).map fun s =>
      some (s.record (.taskDel task))
  | .pendSuspended =>
    (pendCancel fuel s task .deleted (s.tasks task).blkState).map fun s =>
      some (s.record (.taskDel task))
  | _ => some (some (delete (tickListRm s task)))

/-- The task is the active one if none is given. The mutexes are freed before the state is
checked. SRCLINE: k_task.c:726-820 -/
def krhinoTaskDel (fuel : ℕ) (s : Kern) (given : Option ℕ) : Option (KStat × Kern) :=
  let task := given.getD s.active
  if 0 < s.intrptLevel then some (.notCalledByIntrpt, s)
  else if (s.tasks task).prio = idlePri then some (.taskDelNotAllowed, s)
  else if (s.tasks task).mmAllocFlag ≠ .staticAlloc then some (.kobjDelErr, s)
  else if task = s.active ∧ 0 < s.schedLock then some (.schedDisable, s)
  else
    match taskMutexFree fuel s (s.tasks task).mutexList with
    | none => none
    | some s =>
      match taskDelSwitch fuel s task with
      | none => none
      | some none => some (.taskInvState, s)
      | some (some s) => some (.success, s)

/-- `krhino_sem_give(&g_res_sem)`, which has to succeed; the count is not modelled. -/
def resSemGive (s : Kern) : Option Kern :=
  if (s.objs resSem).objType ≠ .other then none
  else
    match (s.objs resSem).blkList with
    | [] => some s
    | task :: _ => pendTaskWakeup s task

/-- SRCLINE: k_task.c:823-936 -/
def krhinoTaskDynDel (fuel : ℕ) (s : Kern) (given : Option ℕ) : Option (KStat × Kern) :=
  let task := given.getD s.active
  if 0 < s.intrptLevel then some (.notCalledByIntrpt, s)
  else if (s.tasks task).prio = idlePri then some (.taskDelNotAllowed, s)
  else if (s.tasks task).mmAllocFlag ≠ .dynAlloc then some (.kobjDelErr, s)
  else if task = s.active ∧ 0 < s.schedLock then some (.schedDisable, s)
  else if (s.tasks task).taskState = .deleted then some (.taskInvState, s)
  else
    match resSemGive s with
    | none => none
    | some s =>
      match taskMutexFree fuel s (s.tasks task).mutexList with
      | none => none
      | some s =>
        match taskDelSwitch fuel s task with
        | none => none
        | some none => some (.success, s)
        | some (some s) => some (.success, s)

/-- A task whose time has come. SRCLINE: k_tick.c:84-118 -/
def tickTimeout (fuel : ℕ) (s : Kern) (task : ℕ) : Option Kern :=
  match (s.tasks task).taskState with
  | .sleep =>
    let s := s.setTask task { s.tasks task with blkState := .finish, taskState := .rdy }
    some ((tickListRm s task).readyAdd task)
  | .pend =>
    (pendCancel fuel s task .rdy .timeout).map fun s => clearBlkObj s task
  | .pendSuspended =>
    (pendCancel fuel s task .suspended .timeout).map fun s => clearBlkObj s task
  | .sleepSuspended =>
    let s := s.setTask task { s.tasks task with taskState := .suspended, blkState := .finish }
    some (tickListRm s task)
  | _ => none

/-- The loop over the tick list; a node's successor is read before the node is handled.
SRCLINE: k_tick.c:75-127 -/
def tickListLoop (fuel : ℕ) : Kern → List ℕ → Option Kern
  | s, [] => some s
  | s, task :: rest =>
    if intDelta (s.tasks task).tickMatch s.tickCount ≤ 0 then
      match tickTimeout fuel s task with
      | none => none
      | some s => tickListLoop fuel s rest
    else some s

/-- SRCLINE: k_tick.c:57-130 -/
def tickListUpdate (fuel : ℕ) (s : Kern) (ticks : ℕ) : Option Kern :=
  let s := { s with tickCount := addTime s.tickCount ticks }
  tickListLoop fuel s s.tickList

/-- SRCLINE: k_sched.c:438-489 -/
def timeSliceUpdate (s : Kern) : Option Kern :=
  let taskPri := (s.tasks s.active).prio
  match s.rq.curListItem taskPri with
  | [] => some s
  | [_] => some s
  | task :: _ =>
    let t := s.tasks task
    if t.schedFifo then some s
    else if 0 < t.timeSlice - 1 then some (s.setTask task { t with timeSlice := t.timeSlice - 1 })
    else
      (readyListHeadToTail s.rq t.prio).map fun rq =>
        { s with rq := rq }.setTask task { t with timeSlice := t.timeTotal }

/-- A semaphore, queue or event is created; its storage is not in use. -/
def blkObjCreate (s : Kern) (obj : ℕ) (blkPolicy : BlkPolicy) : Option Kern :=
  if (s.objs obj).objType ≠ .none then none
  else some (s.setObj obj { s.objs obj with objType := .other, blkPolicy := blkPolicy, blkList := [] })

/-- The active task has to wait for an object, as in `krhino_sem_take`.
SRCLINE: k_sem.c:238-291 -/
def blkObjPend (s : Kern) (obj ticks : ℕ) : Option (Option KStat × Kern) :=
  if 0 < s.intrptLevel then some (some .notCalledByIntrpt, s)
  else if (s.objs obj).objType ≠ .other then some (some .kobjTypeErr, s)
  else if ticks = 0 then some (some .noPendWait, s)
  else if 0 < s.schedLock then some (some .schedDisable, s)
  else (pendToBlkObj s obj s.active ticks).map fun s => (none, s)

/-- A task that waits for an object, not a mutex, is woken. -/
def blkObjWake (s : Kern) (obj task : ℕ) : Option (KStat × Kern) :=
  if (s.objs obj).objType ≠ .other then some (.kobjTypeErr, s)
  else if task ∉ (s.objs obj).blkList then none
  else (pendTaskWakeup s task).map fun s => (.success, s)

/-- As in `krhino_sem_del`. SRCLINE: k_sem.c:44-82 -/
def blkObjDel (fuel : ℕ) (s : Kern) (obj : ℕ) : Option (KStat × Kern) :=
  if 0 < s.intrptLevel then some (.notCalledByIntrpt, s)
  else if (s.objs obj).objType ≠ .other then some (.kobjTypeErr, s)
  else
    (pendTaskRmAll fuel (s.setObj obj { s.objs obj with objType := .none }) obj).map fun s =>
      (.success, s)

/-- SRCLINE: k_sched.c:33-55 -/
def krhinoSchedDisable (s : Kern) : KStat × Kern :=
  if 0 < s.intrptLevel then (.notCalledByIntrpt, s)
  else if schedMaxLockCount ≤ s.schedLock then (.schedLockCountOvf, s)
  else (.success, { s with schedLock := s.schedLock + 1 })

/-- SRCLINE: k_sched.c:57-84 -/
def krhinoSchedEnable (s : Kern) : KStat × Kern :=
  if 0 < s.intrptLevel then (.notCalledByIntrpt, s)
  else if s.schedLock = 0 then (.schedAlreadyEnabled, s)
  else (.success, { s with schedLock := s.schedLock - 1 })

/-- SRCLINE: k_sched.c:126-165 -/
def coreSched (s : Kern) : Option Kern :=
  if 0 < s.intrptLevel then some s
  else if 0 < s.schedLock then some s
  else (preferredCpuReadyTaskGet s.rq).map fun task => { s with active := task }

/-- SRCLINE: k_sys.c:130-147 -/
def krhinoIntrptEnter (s : Kern) : Kern := { s with intrptLevel := s.intrptLevel + 1 }

/-- SRCLINE: k_sys.c:149-198 -/
def krhinoIntrptExit (s : Kern) : Option Kern :=
  if s.intrptLevel = 0 then none else coreSched { s with intrptLevel := s.intrptLevel - 1 }

/-- The calls of tasks and interrupt handlers. -/
inductive KernCall
  | taskCreate (task prio ticks : ℕ) (autorun : Bool) (mmAllocFlag : AllocFlag)
  | taskDel (given : Option ℕ)
  | taskDynDel (given : Option ℕ)
  | taskSleep (ticks : ℕ)
  | taskYield
  | taskSuspend (task : ℕ)
  | taskResume (task : ℕ)
  | taskPriChange (task pri : ℕ)
  | taskWaitAbort (task : ℕ)
  | mutexCreate (mutex : ℕ) (mmAllocFlag : AllocFlag)
  | mutexDel (mutex : ℕ)
  | mutexDynDel (mutex : ℕ)
  | mutexLock (mutex ticks : ℕ)
  | mutexUnlock (mutex : ℕ)
  | blkObjCreate (obj : ℕ) (blkPolicy : BlkPolicy)
  | blkObjPend (obj ticks : ℕ)
  | blkObjWake (obj task : ℕ)
  | blkObjDel (obj : ℕ)
  | schedDisable
  | schedEnable
  | tickListUpdate (ticks : ℕ)
  | timeSliceUpdate
  deriving DecidableEq, Repr

/-- The state after a call. -/
def kernCall (fuel : ℕ) (s : Kern) : KernCall → Option Kern
  | .taskCreate task prio ticks autorun flag =>
    (taskCreate s task prio ticks autorun flag).map Prod.snd
  | .taskDel given => (krhinoTaskDel fuel s given).map Prod.snd
  | .taskDynDel given => (krhinoTaskDynDel fuel s given).map Prod.snd
  | .taskSleep ticks => (krhinoTaskSleep s ticks).map Prod.snd
  | .taskYield => (krhinoTaskYield s).map Prod.snd
  | .taskSuspend task => (krhinoTaskSuspend s task).map Prod.snd
  | .taskResume task => (krhinoTaskResume s task).map Prod.snd
  | .taskPriChange task pri => (krhinoTaskPriChange fuel s task pri).map Prod.snd
  | .taskWaitAbort task => (krhinoTaskWaitAbort fuel s task).map Prod.snd
  | .mutexCreate mutex flag => mutexCreate s mutex flag
  | .mutexDel mutex => (krhinoMutexDel fuel s mutex).map Prod.snd
  | .mutexDynDel mutex => (krhinoMutexDynDel fuel s mutex).map Prod.snd
  | .mutexLock mutex ticks => (krhinoMutexLock fuel s mutex ticks).map Prod.snd
  | .mutexUnlock mutex => (krhinoMutexUnlock fuel s mutex).map Prod.snd
  | .blkObjCreate obj policy => blkObjCreate s obj policy
  | .blkObjPend obj ticks => (blkObjPend s obj ticks).map Prod.snd
  | .blkObjWake obj task => (blkObjWake s obj task).map Prod.snd
  | .blkObjDel obj => (blkObjDel fuel s obj).map Prod.snd
  | .schedDisable => some (krhinoSchedDisable s).2
  | .schedEnable => some (krhinoSchedEnable s).2
  | .tickListUpdate ticks => tickListUpdate fuel s ticks
  | .timeSliceUpdate => timeSliceUpdate s

/-- What happens next: the code that runs makes a call, an interrupt begins or ends, or a task
that has left its critical section schedules. -/
inductive KernAct
  | call (c : KernCall)
  | intrptEnter
  | intrptExit
  | coreSched
  deriving DecidableEq, Repr

/-- Of the code that makes calls, an interrupt handler runs whatever the active task's state is,
the active task itself only if it is ready: when it is not, it is on its way to `core_sched`. -/
def kernStep (fuel : ℕ) (s : Kern) : KernAct → Option Kern
  | .call c =>
    if 0 < s.intrptLevel ∨ (s.tasks s.active).taskState = .rdy then kernCall fuel s c else none
  | .intrptEnter => some (krhinoIntrptEnter s)
  | .intrptExit => krhinoIntrptExit s
  | .coreSched => coreSched s

end GenieSdk.Model.Rhino
