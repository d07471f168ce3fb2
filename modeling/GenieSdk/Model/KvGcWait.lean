import GenieSdk.Lib.Runs

/-!
# Setters waiting for a garbage collection

`aos_kv_set` and `kv_gc_task` (kvmgr.c) meet outside the store's mutex: a setter that finds
`gc_trigger` set counts itself in `gc_waiter` and takes `gc_sem`; a finishing collection clears
`gc_trigger`, and gives `gc_sem` to all if it finds a waiter counted. Each task is a program
counter naming the statement it runs next, and a step lets one task run one statement.
-/

set_option autoImplicit false

namespace GenieSdk.Model

/-- The statement a task inside `aos_kv_set` runs next. SRCLINE: kvmgr.c:960-995 -/
inductive SetterPc
  | testTrigger
  | countWaiter
  | takeSem
  | blocked
  | lockMutex
  | store
  | unlockMutex
  deriving DecidableEq, Repr

/-- The statement a `kv_gc_task` runs next. SRCLINE: kvmgr.c:790-867 -/
inductive GcPc
  | lockMutex
  | collect
  | clearTrigger
  | unlockMutex
  | testWaiter
  | giveAll
  | taskDel
  | deleted
  deriving DecidableEq, Repr

inductive MutexOwner
  | setter (i : ℕ)
  | gc (j : ℕ)
  deriving DecidableEq, Repr

/-- The fields of `g_kv_mgr` that the two kinds of task share, and where every task stands. -/
structure GcWaitState where
  gcTrigger : ℕ
  gcWaiter : ℕ
  semCount : ℕ
  mutex : Option MutexOwner
  setters : List SetterPc
  gcs : List GcPc
  deriving DecidableEq, Repr

/-- `(sem_count_t)-1`. -/
def semCountMax : ℕ := 2 ^ 32 - 1

/-- SRCLINE: kvmgr.c:48-58 -/
def kvTriggerGcWait (s : GcWaitState) : GcWaitState :=
  if s.gcTrigger ≠ 0 then s
  else { s with gcWaiter := 0, gcTrigger := 1, gcs := s.gcs ++ [.lockMutex] }

/-- What `aos_kv_init` leaves for `n` tasks that will call `aos_kv_set`; it may itself have
triggered a collection. SRCLINE: kvmgr.c:1315-1327 -/
def gcWaitInit (n : ℕ) (bootGc : Bool) : GcWaitState :=
  let s : GcWaitState :=
    { gcTrigger := 0, gcWaiter := 0, semCount := 0, mutex := none,
      setters := List.replicate n .testTrigger, gcs := [] }
  if bootGc then kvTriggerGcWait s else s

def wakeUp : SetterPc → SetterPc
  | .blocked => .lockMutex
  | pc => pc

/-- The token count after `krhino_sem_give_all`: one more only if no taker is blocked.
SRCLINE: k_sem.c:178-198 -/
def semAfterGiveAll (s : GcWaitState) : ℕ :=
  if SetterPc.blocked ∈ s.setters ∨ s.semCount = semCountMax then s.semCount
  else s.semCount + 1

/-- SRCLINE: k_sem.c:155-222 -/
def semGiveAll (s : GcWaitState) : GcWaitState :=
  { s with semCount := semAfterGiveAll s, setters := s.setters.map wakeUp }

def GcWaitState.setSetter (s : GcWaitState) (i : ℕ) (pc : SetterPc) : GcWaitState :=
  { s with setters := s.setters.set i pc }

def GcWaitState.setGc (s : GcWaitState) (j : ℕ) (pc : GcPc) : GcWaitState :=
  { s with gcs := s.gcs.set j pc }

/-- One statement of setter `i`, which stands at `pc`; `runGc` says whether its store reaches
`kv_trigger_gc`. A setter that has unlocked the mutex may call `aos_kv_set` again.
SRCLINE: kvmgr.c:971-994 -/
def setterStep (s : GcWaitState) (i : ℕ) (runGc : Bool) : SetterPc → Option GcWaitState
  | .testTrigger => some (s.setSetter i (if s.gcTrigger ≠ 0 then .countWaiter else .lockMutex))
  | .countWaiter => some ({ s with gcWaiter := (s.gcWaiter + 1) % 256 }.setSetter i .takeSem)
  | .takeSem =>
    if 0 < s.semCount then some ({ s with semCount := s.semCount - 1 }.setSetter i .lockMutex)
    else some (s.setSetter i .blocked)
  | .blocked => none
  | .lockMutex =>
    if s.mutex = none then some ({ s with mutex := some (.setter i) }.setSetter i .store)
    else none
  | .store => some ((if runGc then kvTriggerGcWait s else s).setSetter i .unlockMutex)
  | .unlockMutex => some ({ s with mutex := none }.setSetter i .testTrigger)

/-- One statement of collection `j`, which stands at `pc`. SRCLINE: kvmgr.c:796-867 -/
def gcStep (s : GcWaitState) (j : ℕ) : GcPc → Option GcWaitState
  | .lockMutex =>
    if s.mutex = none then some ({ s with mutex := some (.gc j) }.setGc j .collect) else none
  | .collect => some (s.setGc j .clearTrigger)
  | .clearTrigger => some ({ s with gcTrigger := 0 }.setGc j .unlockMutex)
  | .unlockMutex => some ({ s with mutex := none }.setGc j .testWaiter)
  | .testWaiter => some (s.setGc j (if 0 < s.gcWaiter then .giveAll else .taskDel))
  | .giveAll => some ((semGiveAll s).setGc j .taskDel)
  | .taskDel => some (s.setGc j .deleted)
  | .deleted => none

inductive GcWaitAct
  | setter (i : ℕ) (runGc : Bool)
  | gc (j : ℕ)
  deriving DecidableEq, Repr

/-- Any task that exists and is not blocked may run its next statement. -/
def gcWaitStep (s : GcWaitState) : GcWaitAct → Option GcWaitState
  | .setter i runGc => s.setters[i]?.bind (setterStep s i runGc)
  | .gc j => s.gcs[j]?.bind (gcStep s j)

end GenieSdk.Model
