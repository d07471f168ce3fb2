import GenieSdk.Model.Rhino

/-!
# The tick list

`k_tick.c` by itself: the tasks with a timeout, in the order of their times. Of a task only the fields that
these functions read or write are kept; what else a timeout does to a task is in the kernel, of which this
is a view (`tickView`).
-/

set_option autoImplicit false

namespace GenieSdk.Model.Tick

open GenieSdk.Model.Rhino (TaskStat Kern)

/-- The fields of `ktask_t` that the tick list uses. `tickHead` is `tick_head != NULL`. -/
structure TickTask where
  taskState : TaskStat
  blkState : BlkState
  tickMatch : ℕ
  tickRemain : ℕ
  tickHead : Bool
  deriving DecidableEq, Repr

/-- `g_tick_count`, the list at `g_tick_head`, and the tasks. -/
@[ext] structure TickSys where
  tickCount : ℕ
  tickList : List ℕ
  tasks : ℕ → TickTask

def TickSys.setTask (s : TickSys) (task : ℕ) (t : TickTask) : TickSys :=
  { s with tasks := Function.update s.tasks task t }

/-- SRCLINE: k_tick.c:12-31 -/
def tickListPriInsert (s : TickSys) (task val : ℕ) : List ℕ → List ℕ
  | [] => [task]
  | q :: rest =>
    if val < subTime (s.tasks q).tickMatch s.tickCount then task :: q :: rest
    else q :: tickListPriInsert s task val rest

/-- SRCLINE: k_tick.c:33-45 -/
def tickListInsert (s : TickSys) (task time : ℕ) : TickSys :=
  if 0 < time then
    let s := s.setTask task { s.tasks task with
      tickMatch := addTime s.tickCount time, tickRemain := time, tickHead := true }
    { s with tickList := tickListPriInsert s task time s.tickList }
  else s

/-- SRCLINE: k_tick.c:47-55 -/
def tickListRm (s : TickSys) (task : ℕ) : TickSys :=
  if (s.tasks task).tickHead then
    { s with tickList := s.tickList.erase task }.setTask task { s.tasks task with tickHead := false }
  else s

/-- The task is in one of the states in which it waits. -/
def Waiting : TaskStat → Bool
  | .sleep => true
  | .pend => true
  | .pendSuspended => true
  | .sleepSuspended => true
  | _ => false

/-- A task whose time has come: its state, and why it waits no more. SRCLINE: k_tick.c:84-118 -/
def released (t : TickTask) : TickTask :=
  match t.taskState with
  | .sleep => { t with taskState := .rdy, blkState := .finish }
  | .pend => { t with taskState := .rdy, blkState := .timeout }
  | .pendSuspended => { t with taskState := .suspended, blkState := .timeout }
  | .sleepSuspended => { t with taskState := .suspended, blkState := .finish }
  | _ => t

/-- In any other state the update ends in `k_err_proc`. SRCLINE: k_tick.c:84-118 -/
def tickTimeout (s : TickSys) (task : ℕ) : Option TickSys :=
  if Waiting (s.tasks task).taskState then
    some (tickListRm (s.setTask task (released (s.tasks task))) task)
  else none

/-- The loop over the list; a node's successor is read before the node is handled.
SRCLINE: k_tick.c:75-127 -/
def tickListLoop : TickSys → List ℕ → Option TickSys
  | s, [] => some s
  | s, task :: rest =>
    if intDelta (s.tasks task).tickMatch s.tickCount ≤ 0 then
      match tickTimeout s task with
      | none => none
      | some s => tickListLoop s rest
    else some s

/-- SRCLINE: k_tick.c:57-130 -/
def tickListUpdate (s : TickSys) (ticks : ℕ) : Option TickSys :=
  let s := { s with tickCount := addTime s.tickCount ticks }
  tickListLoop s s.tickList

/-- What happens to the list. `taskState` is the state that the rest of the call gives the task. -/
inductive TickAct
  /-- A task that is not in the list sleeps, or pends, with a timeout. -/
  | insert (task time : ℕ) (taskState : TaskStat)
  /-- A task is woken, its wait is aborted, or it is deleted. -/
  | rm (task : ℕ) (taskState : TaskStat)
  /-- Any other change of a task's state: suspended or resumed while it waits, or not in the list. -/
  | restate (task : ℕ) (taskState : TaskStat)
  | update (ticks : ℕ)
  deriving DecidableEq, Repr

/-- `none` for what the kernel does not do, and for `k_err_proc`. -/
def tickStep (s : TickSys) : TickAct → Option TickSys
  | .insert task time taskState =>
    if (s.tasks task).tickHead = false ∧ Waiting taskState then
      some (tickListInsert (s.setTask task { s.tasks task with taskState := taskState }) task time)
    else none
  | .rm task taskState =>
    some (tickListRm (s.setTask task { s.tasks task with taskState := taskState }) task)
  | .restate task taskState =>
    if (s.tasks task).tickHead = false ∨ Waiting taskState then
      some (s.setTask task { s.tasks task with taskState := taskState })
    else none
  | .update ticks => tickListUpdate s ticks

/-- No task waits, and the counter shows `c`. -/
def tickStart (c : ℕ) : TickSys where
  tickCount := c
  tickList := []
  tasks := fun _ => ⟨.seed, .finish, 0, 0, false⟩

/-- What the tick list sees of a task. -/
def taskView (t : Rhino.KTask) : TickTask :=
  ⟨t.taskState, t.blkState, t.tickMatch, t.tickRemain, t.tickHead⟩

/-- What the tick list sees of the kernel. -/
def tickView (s : Kern) : TickSys where
  tickCount := s.tickCount
  tickList := s.tickList
  tasks := fun task => taskView (s.tasks task)

end GenieSdk.Model.Tick
