import GenieSdk.Model.Timer

/-!
# Work queues

`k_workqueue.c`: works, the queues with their worker tasks, and the tasks that submit and cancel
works. Each critical section and each call of another module is a step of its own. The timer of
a work has the number of the work. `log` records what is called, inserted and run.
-/

set_option autoImplicit false

namespace GenieSdk.Model

/-- `(sem_count_t)-1` -/
def workSemCountMax : ℕ := 2 ^ 32 - 1

/-- Where a worker is in the loop of `worker_task`. -/
inductive WorkerPc
  | take
  | blocked
  | pop
  | call (work : ℕ)
  | clean
  deriving DecidableEq

/-- `kworkqueue_t` with its semaphore and its worker. -/
structure KWorkqueue where
  workList : List ℕ
  workCurrent : Option ℕ
  semCount : ℕ
  worker : WorkerPc
  deriving DecidableEq

/-- `kwork_t`; `inited` says that `krhino_work_init` succeeded. -/
structure KWork where
  inited : Bool
  dly : ℕ
  wq : Option ℕ
  workExit : Bool
  deriving DecidableEq

/-- Where a task is in `krhino_work_run` or `krhino_work_cancel`. -/
inductive WorkTaskPc
  | idle
  | semGive (wq work : ℕ)
  | timerArg (wq work : ℕ)
  | cancel (work : ℕ) (wq : Option ℕ)
  deriving DecidableEq

/-- Where the timer task is in `work_timer_cb`. -/
inductive WorkTimerPc
  | none
  | enter (timer wq : ℕ)
  | semGive (wq : ℕ)
  deriving DecidableEq

/-- `krhino_work_run` is called and returns, a work is inserted (by a task, or by the timer task),
its handler is invoked, `krhino_work_cancel` returns. -/
inductive WorkEvent
  | run (task wq work : ℕ)
  | inserted (task : Option ℕ) (wq work : ℕ)
  | ran (task wq work : ℕ) (stat : KStat)
  | invoked (wq work : ℕ)
  | cancelled (task work : ℕ) (stat : KStat)
  deriving DecidableEq

/-- `priv` is the field of the timers. -/
structure WorkSys where
  works : ℕ → KWork
  priv : ℕ → Option ℕ
  queues : ℕ → KWorkqueue
  tasks : List WorkTaskPc
  timerCb : WorkTimerPc
  timers : TimerSys
  log : List WorkEvent

/-- `taskNum` tasks and any number of queues, after `krhino_workqueue_create`; no work is
initialised yet. -/
def workqueueInit (taskNum : ℕ) : WorkSys where
  works := fun _ => { inited := false, dly := 0, wq := none, workExit := false }
  priv := fun _ => none
  queues := fun _ => { workList := [], workCurrent := none, semCount := 0, worker := .take }
  tasks := List.replicate taskNum .idle
  timerCb := .none
  timers := ktimerInit
  log := []

namespace WorkSys

def setWork (s : WorkSys) (work : ℕ) (x : KWork) : WorkSys :=
  { s with works := Function.update s.works work x }

def setQueue (s : WorkSys) (wq : ℕ) (x : KWorkqueue) : WorkSys :=
  { s with queues := Function.update s.queues wq x }

def setTask (s : WorkSys) (task : ℕ) (pc : WorkTaskPc) : WorkSys :=
  { s with tasks := s.tasks.set task pc }

def record (s : WorkSys) (e : WorkEvent) : WorkSys := { s with log := s.log ++ [e] }

/-- `klist_rm_init(&(work->work_node))` -/
def rmNode (s : WorkSys) (work : ℕ) : WorkSys :=
  { s with queues := fun wq =>
      { s.queues wq with workList := (s.queues wq).workList.erase work } }

/-- `klist_insert(&(wq->work_list), &(work->work_node))`, at the tail. -/
def insertNode (s : WorkSys) (wq work : ℕ) : WorkSys :=
  s.setQueue wq { s.queues wq with workList := (s.queues wq).workList ++ [work] }

end WorkSys

/-- A work is put into the list; `task` is `none` for the timer task.
SRCLINE: k_workqueue.c:135-141, 208-213 -/
def workInsert (s : WorkSys) (task : Option ℕ) (wq work : ℕ) : WorkSys :=
  let s := (s.rmNode work).insertNode wq work
  let s := s.setWork work { s.works work with wq := some wq, workExit := true }
  s.record (.inserted task wq work)

/-- `krhino_sem_give`, where at most the worker waits. SRCLINE: k_sem.c:133-193 -/
def workSemGive (s : WorkSys) (wq : ℕ) : KStat × WorkSys :=
  let queue := s.queues wq
  if queue.worker = .blocked then (.success, s.setQueue wq { queue with worker := .pop })
  else if queue.semCount = workSemCountMax then (.semOvf, s)
  else (.success, s.setQueue wq { queue with semCount := queue.semCount + 1 })

/-- SRCLINE: k_workqueue.c:150-185 -/
def krhinoWorkInit (s : WorkSys) (work dly : ℕ) : KStat × WorkSys :=
  let x := { inited := true, dly := dly, wq := none, workExit := false }
  if 0 < dly then
    match krhinoTimerDynCreate s.timers work dly 0 work false with
    | (.success, timers) => (.success, { s with timers := timers }.setWork work x)
    | (stat, timers) => (stat, { s with timers := timers })
  else (.success, s.setWork work x)

/-- A call returns. -/
def workRunRet (s : WorkSys) (task wq work : ℕ) (stat : KStat) : WorkSys :=
  (s.setTask task .idle).record (.ran task wq work stat)

/-- `krhino_work_run` to the end of its critical section. SRCLINE: k_workqueue.c:187-226 -/
def krhinoWorkRun (s : WorkSys) (task wq work : ℕ) : WorkSys :=
  let s := s.record (.run task wq work)
  if (s.works work).dly = 0 then
    if (s.queues wq).workCurrent = some work then workRunRet s task wq work .workqueueWorkRunning
    else if (s.works work).workExit then workRunRet s task wq work .workqueueWorkExist
    else (workInsert s (some task) wq work).setTask task (.semGive wq work)
  else
    { s with priv := Function.update s.priv work (some work) }.setTask task (.timerArg wq work)

/-- `krhino_work_cancel` returns. -/
def workCancelRet (s : WorkSys) (task work : ℕ) (stat : KStat) : WorkSys :=
  (s.setTask task .idle).record (.cancelled task work stat)

/-- `krhino_work_cancel` after it has read `wq`. SRCLINE: k_workqueue.c:246-270 -/
def krhinoWorkCancel (s : WorkSys) (task work : ℕ) : Option ℕ → WorkSys
  | none =>
    let s := if 0 < (s.works work).dly then { s with timers := (krhinoTimerStop s.timers work).2 } else s
    workCancelRet s task work .success
  | some wq =>
    if (s.queues wq).workCurrent = some work then workCancelRet s task work .workqueueWorkRunning
    else if (s.works work).workExit then workCancelRet s task work .workqueueWorkExist
    else
      let s := s.rmNode work
      let s := s.setWork work { s.works work with wq := none }
      workCancelRet s task work .success

/-- The next step of a task that is in a call. -/
def workTask (s : WorkSys) (task : ℕ) : WorkTaskPc → Option WorkSys
  | .idle => none
  | .semGive wq work =>
    let r := workSemGive s wq
    some (workRunRet r.2 task wq work r.1)
  | .timerArg wq work =>
    let r := krhinoTimerArgChangeAuto s.timers work wq
    some (workRunRet { s with timers := r.2 } task wq work r.1)
  | .cancel work wq => some (krhinoWorkCancel s task work wq)

/-- The next step of `work_timer_cb`. SRCLINE: k_workqueue.c:115-148 -/
def workTimerCb (s : WorkSys) : Option WorkSys :=
  match s.timerCb with
  | .none => none
  | .enter timer wq =>
    match s.priv timer with
    | none => none
    | some work =>
      if (s.queues wq).workCurrent = some work then some { s with timerCb := .none }
      else if (s.works work).workExit then some { s with timerCb := .none }
      else some { workInsert s none wq work with timerCb := .semGive wq }
  | .semGive wq => some { (workSemGive s wq).2 with timerCb := .none }

/-- The next step of a worker; none while it is blocked. An empty `work_list` has no first entry.
SRCLINE: k_workqueue.c:28-60 -/
def workerTask (s : WorkSys) (wq : ℕ) : Option WorkSys :=
  let queue := s.queues wq
  match queue.worker with
  | .take =>
    if 0 < queue.semCount then
      some (s.setQueue wq { queue with semCount := queue.semCount - 1, worker := .pop })
    else some (s.setQueue wq { queue with worker := .blocked })
  | .blocked => none
  | .pop =>
    match queue.workList with
    | [] => none
    | work :: _ =>
      let s := s.rmNode work
      let s := s.setQueue wq
        { s.queues wq with workCurrent := some work, worker := .call work }
      some (s.setWork work { s.works work with workExit := false })
  | .call work => some ((s.setQueue wq { queue with worker := .clean }).record (.invoked wq work))
  | .clean => some (s.setQueue wq { queue with workCurrent := none, worker := .take })

end GenieSdk.Model
