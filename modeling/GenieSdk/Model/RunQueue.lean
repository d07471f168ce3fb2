import GenieSdk.Model.Bitmap
import Mathlib.Logic.Function.Basic

/-!
# The run queue

The lists of ready tasks of `k_sched.c`, one for each priority, with the bitmap of the lists that
are not empty and the highest priority in use. A list is circular and `cur_list_item` points at
its first task: `curListItem prio` are the tasks from there on.
-/

set_option autoImplicit false

namespace GenieSdk.Model.Rhino

/-- `RHINO_CONFIG_PRI_MAX` -/
def priMax : ℕ := 62

/-- `RHINO_IDLE_PRI` -/
def idlePri : ℕ := priMax - 1

/-- `NUM_WORDS` -/
def numWords : ℕ := (priMax + 31) / 32

/-- `runqueue_t` -/
structure RunQueue where
  curListItem : ℕ → List ℕ
  taskBitMap : List ℕ
  highestPri : ℕ

/-- SRCLINE: k_sched.c:168-177 -/
def runqueueInit : RunQueue where
  curListItem := fun _ => []
  taskBitMap := List.replicate numWords 0
  highestPri := priMax

/-- Replace the list of one priority. -/
def RunQueue.setList (rq : RunQueue) (prio : ℕ) (l : List ℕ) : RunQueue :=
  { rq with curListItem := Function.update rq.curListItem prio l }

/-- SRCLINE: k_sched.c:179-188 -/
def readyListInit (rq : RunQueue) (task prio : ℕ) : RunQueue :=
  let rq := rq.setList prio [task]
  { rq with
    taskBitMap := krhinoBitmapSet rq.taskBitMap prio
    highestPri := if prio < rq.highestPri then prio else rq.highestPri }

/-- Before the first task of a circular list is its end. SRCLINE: k_sched.c:195-203 -/
def readyListAddTail (rq : RunQueue) (task prio : ℕ) : RunQueue :=
  if rq.curListItem prio = [] then readyListInit rq task prio
  else rq.setList prio (rq.curListItem prio ++ [task])

/-- SRCLINE: k_sched.c:205-214 -/
def readyListAddHead (rq : RunQueue) (task prio : ℕ) : RunQueue :=
  if rq.curListItem prio = [] then readyListInit rq task prio
  else rq.setList prio (task :: rq.curListItem prio)

/-- `activePrio` is the priority of the active task. SRCLINE: k_sched.c:275-283 -/
def readyListAdd (rq : RunQueue) (task prio activePrio : ℕ) : RunQueue :=
  if prio = activePrio then readyListAddTail rq task prio else readyListAddHead rq task prio

/-- None if the list is empty (a null pointer is followed), or if no ready task is left.
SRCLINE: k_sched.c:285-320 -/
def readyListRm (rq : RunQueue) (task prio : ℕ) : Option RunQueue :=
  match rq.curListItem prio with
  | [] => none
  | [_] =>
    let rq := rq.setList prio []
    let rq := { rq with taskBitMap := krhinoBitmapClear rq.taskBitMap prio }
    if prio ≠ rq.highestPri then some rq
    else (krhinoFindFirstBit rq.taskBitMap).map fun i => { rq with highestPri := i }
  | l => some (rq.setList prio (l.erase task))

/-- SRCLINE: k_sched.c:322-325 -/
def readyListHeadToTail (rq : RunQueue) (prio : ℕ) : Option RunQueue :=
  match rq.curListItem prio with
  | [] => none
  | task :: rest => some (rq.setList prio (rest ++ [task]))

/-- SRCLINE: k_sched.c:370-375 -/
def preferredCpuReadyTaskGet (rq : RunQueue) : Option ℕ := (rq.curListItem rq.highestPri).head?

end GenieSdk.Model.Rhino
