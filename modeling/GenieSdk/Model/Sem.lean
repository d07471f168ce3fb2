import GenieSdk.Model.Rhino

/-!
# Semaphores

`k_sem.c` on the kernel of `k_task.c` and `k_mutex.c`. A semaphore is an object on which tasks pend,
with a count. A task that has pended in `krhino_sem_take` returns from the call when it runs again,
which is a step of its own; before that it makes no other call. `g_res_sem`, whose count is not
modelled, is not one of these semaphores.
-/

set_option autoImplicit false

namespace GenieSdk.Model.Rhino

/-- `RHINO_SEM_TASK_WAITING`, which no other call returns, or another status. -/
inductive SemStat
  | semTaskWaiting
  | kstat (st : KStat)
  deriving DecidableEq, Repr

/-- A call of `krhino_sem_take` that has returned, with the number of tokens it got. -/
structure SemTake where
  task : ℕ
  sem : ℕ
  stat : KStat
  tokens : ℕ
  deriving DecidableEq, Repr

/-- The kernel with its semaphores: which objects have `RHINO_SEM_OBJ_TYPE`, their counts, and the
semaphore that a task has pended on in a `krhino_sem_take` from which it has not returned. The last
three fields keep the books, and nothing a semaphore does depends on them: the tokens that a task was
given since it pended, the tokens given to tasks that have not returned with them, each with its
semaphore, and the takes that have returned. -/
structure SemKern where
  kern : Kern
  isSem : ℕ → Bool
  count : ℕ → BitVec 32
  peakCount : ℕ → BitVec 32
  inTake : ℕ → Option ℕ
  tokens : ℕ → ℕ
  handed : List (ℕ × ℕ)
  takes : List SemTake

def SemKern.record (s : SemKern) (task sem : ℕ) (stat : KStat) (tokens : ℕ) : SemKern :=
  { s with takes := s.takes ++ [{ task := task, sem := sem, stat := stat, tokens := tokens }] }

/-- `sem->count = count`, and the peak count after it -/
def SemKern.setCount (s : SemKern) (sem : ℕ) (count : BitVec 32) : SemKern :=
  { s with
    count := Function.update s.count sem count
    peakCount := Function.update s.peakCount sem
      (if s.peakCount sem < count then count else s.peakCount sem) }

/-- The storage of `g_res_sem` is in use. SRCLINE: k_sem.c:8-37 -/
def semCreate (s : SemKern) (sem : ℕ) (count : BitVec 32) (mmAllocFlag : AllocFlag) :
    Option SemKern :=
  if (s.kern.objs sem).objType ≠ .none ∨ sem = resSem then none
  else
    some { s with
      kern := s.kern.setObj sem { s.kern.objs sem with
        objType := .other, blkPolicy := .pri, blkList := [], mmAllocFlag := mmAllocFlag }
      isSem := Function.update s.isSem sem true
      count := Function.update s.count sem count
      peakCount := Function.update s.peakCount sem count }

/-- `krhino_sem_del` and `krhino_sem_dyn_del`, which ask for different flags.
SRCLINE: k_sem.c:44-82, 111-151 -/
def semDel (fuel : ℕ) (s : SemKern) (sem : ℕ) (mmAllocFlag : AllocFlag) : Option (KStat × SemKern) :=
  if 0 < s.kern.intrptLevel then some (.notCalledByIntrpt, s)
  else if s.isSem sem = false then some (.kobjTypeErr, s)
  else if (s.kern.objs sem).mmAllocFlag ≠ mmAllocFlag then some (.kobjDelErr, s)
  else
    let kern := s.kern.setObj sem { s.kern.objs sem with objType := .none }
    match pendTaskRmAll fuel kern sem with
    | none => none
    | some kern =>
      some (.success, { s with kern := kern, isSem := Function.update s.isSem sem false })

/-- A task is woken by a give: it gets one token. -/
def semWake (s : SemKern) (sem task : ℕ) : Option SemKern :=
  (pendTaskWakeup s.kern task).map fun kern =>
    { s with
      kern := kern
      tokens := Function.update s.tokens task (s.tokens task + 1)
      handed := (sem, task) :: s.handed }

/-- `while (!is_klist_empty(blk_list_head)) pend_task_wakeup(...)` -/
def semWakeAll : ℕ → SemKern → ℕ → Option SemKern
  | 0, _, _ => none
  | fuel + 1, s, sem =>
    match (s.kern.objs sem).blkList with
    | [] => some s
    | task :: _ =>
      match semWake s sem task with
      | none => none
      | some s => semWakeAll fuel s sem

/-- SRCLINE: k_sem.c:155-222 -/
def semGive (fuel : ℕ) (s : SemKern) (sem : ℕ) (optWakeAll : Bool) : Option (KStat × SemKern) :=
  if s.isSem sem = false then some (.kobjTypeErr, s)
  else
    match (s.kern.objs sem).blkList with
    | [] =>
      if s.count sem = -1 then some (.semOvf, s)
      else some (.success, s.setCount sem (s.count sem + 1))
    | task :: _ =>
      (if optWakeAll then semWakeAll fuel s sem else semWake s sem task).map fun s => (.success, s)

/-- SRCLINE: k_sem.c:224-229 -/
def krhinoSemGive (fuel : ℕ) (s : SemKern) (sem : ℕ) : Option (KStat × SemKern) :=
  semGive fuel s sem false

/-- SRCLINE: k_sem.c:231-236 -/
def krhinoSemGiveAll (fuel : ℕ) (s : SemKern) (sem : ℕ) : Option (KStat × SemKern) :=
  semGive fuel s sem true

/-- No status if the caller blocks. SRCLINE: k_sem.c:238-278 -/
def krhinoSemTake (s : SemKern) (sem ticks : ℕ) : Option (Option KStat × SemKern) :=
  let task := s.kern.active
  let refuse (st : KStat) := some (some st, s.record task sem st 0)
  if 0 < s.kern.intrptLevel then refuse .notCalledByIntrpt
  else if s.isSem sem = false then refuse .kobjTypeErr
  else if 0 < s.count sem then
    let s := { s with count := Function.update s.count sem (s.count sem - 1) }
    some (some .success, s.record task sem .success 1)
  else if ticks = 0 then refuse .noPendWait
  else if 0 < s.kern.schedLock then refuse .schedDisable
  else
    match pendToBlkObj s.kern sem task ticks with
    | none => none
    | some kern =>
      some (none, { s with
        kern := kern
        inTake := Function.update s.inTake task (some sem)
        tokens := Function.update s.tokens task 0 })

/-- The active task comes back from `core_sched` in `krhino_sem_take`. SRCLINE: k_sem.c:280-290 -/
def semTakeReturn (s : SemKern) : Option (KStat × SemKern) :=
  let task := s.kern.active
  match s.inTake task with
  | none => none
  | some sem =>
    let stat := pendStateEndProc (s.kern.tasks task).blkState
    some (stat, { s.record task sem stat (s.tokens task) with
      inTake := Function.update s.inTake task none
      handed := if 0 < s.tokens task then s.handed.erase (sem, task) else s.handed })

/-- SRCLINE: k_sem.c:293-332 -/
def krhinoSemCountSet (s : SemKern) (sem : ℕ) (semCount : BitVec 32) : SemStat × SemKern :=
  if 0 < s.kern.intrptLevel then (.kstat .notCalledByIntrpt, s)
  else if s.isSem sem = false then (.kstat .kobjTypeErr, s)
  else if 0 < s.count sem ∨ (s.kern.objs sem).blkList = [] then
    (.kstat .success, s.setCount sem semCount)
  else (.semTaskWaiting, s)

/-- The calls on semaphores, and whatever else happens in the kernel. -/
inductive SemAct
  | create (sem : ℕ) (count : BitVec 32) (mmAllocFlag : AllocFlag)
  | del (sem : ℕ) (mmAllocFlag : AllocFlag)
  | give (sem : ℕ)
  | giveAll (sem : ℕ)
  | take (sem ticks : ℕ)
  | takeReturn
  | countSet (sem : ℕ) (semCount : BitVec 32)
  | kern (a : KernAct)

/-- A call for a queue or an event is given a semaphore; it returns `RHINO_KOBJ_TYPE_ERR`. -/
def SemKern.wrongType (s : SemKern) : KernAct → Bool
  | .call (.blkObjPend obj _) => s.isSem obj
  | .call (.blkObjWake obj _) => s.isSem obj
  | .call (.blkObjDel obj) => s.isSem obj
  | _ => false

/-- Code that makes calls runs: an interrupt handler, or the active task, which is ready as in
`kernStep` and has returned from `krhino_sem_take`. -/
def SemKern.MayCall (s : SemKern) : Prop :=
  0 < s.kern.intrptLevel ∨
    (s.kern.tasks s.kern.active).taskState = .rdy ∧ s.inTake s.kern.active = none

instance (s : SemKern) : Decidable s.MayCall :=
  inferInstanceAs (Decidable (_ ∨ _))

/-- A task that is deleted does not return from its call. -/
def SemKern.setKern (s : SemKern) (kern : Kern) : SemKern :=
  { s with
    kern := kern
    inTake := fun t => if (kern.tasks t).taskState = .deleted then none else s.inTake t }

def semKernStep (fuel : ℕ) (s : SemKern) (a : KernAct) : Option SemKern :=
  if s.wrongType a then some s else (kernStep fuel s.kern a).map s.setKern

/-- Interrupts begin and end, and the scheduler runs, whatever the active task does. -/
def semStep (fuel : ℕ) (s : SemKern) : SemAct → Option SemKern
  | .create sem count mmAllocFlag => if s.MayCall then semCreate s sem count mmAllocFlag else none
  | .del sem mmAllocFlag =>
    if s.MayCall then (semDel fuel s sem mmAllocFlag).map Prod.snd else none
  | .give sem => if s.MayCall then (krhinoSemGive fuel s sem).map Prod.snd else none
  | .giveAll sem => if s.MayCall then (krhinoSemGiveAll fuel s sem).map Prod.snd else none
  | .take sem ticks => if s.MayCall then (krhinoSemTake s sem ticks).map Prod.snd else none
  | .countSet sem semCount => if s.MayCall then some (krhinoSemCountSet s sem semCount).2 else none
  | .takeReturn =>
    if s.kern.intrptLevel = 0 ∧ (s.kern.tasks s.kern.active).taskState = .rdy then
      (semTakeReturn s).map Prod.snd
    else none
  | .kern (.call c) => if s.MayCall then semKernStep fuel s (.call c) else none
  | .kern a => semKernStep fuel s a

/-- A kernel without semaphores. -/
def semStart : SemKern where
  kern := krhinoStart
  isSem := fun _ => false
  count := fun _ => 0
  peakCount := fun _ => 0
  inTake := fun _ => none
  tokens := fun _ => 0
  handed := []
  takes := []

end GenieSdk.Model.Rhino
