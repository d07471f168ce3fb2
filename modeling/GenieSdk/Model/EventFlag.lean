import GenieSdk.Model.Rhino

/-!
# Event flags

`k_event.c` on the kernel of `k_task.c` and `k_mutex.c`. An event is an object on which tasks pend, with
32 flags; a task that pends keeps in its control block what it waits for. What the other calls do to the
tasks that wait for an event is what they do in the kernel.
-/

set_option autoImplicit false

namespace GenieSdk.Model.Rhino

/-- `RHINO_FLAGS_AND_MASK` -/
def flagsAndMask : UInt8 := 2

/-- `RHINO_FLAGS_CLEAR_MASK` -/
def flagsClearMask : UInt8 := 1

/-- `RHINO_AND` -/
def optAnd : UInt8 := 2

/-- `RHINO_AND_CLEAR` -/
def optAndClear : UInt8 := 3

/-- `RHINO_OR` -/
def optOr : UInt8 := 0

/-- `RHINO_OR_CLEAR` -/
def optOrClear : UInt8 := 1

/-- `RHINO_NO_THIS_EVENT_OPT`, which no other call returns, or another status. -/
inductive EventStat
  | noThisEventOpt
  | kstat (st : KStat)
  deriving DecidableEq, Repr

/-- The kernel with its events: which objects have `RHINO_EVENT_OBJ_TYPE`, their flags, and of each task
`pend_option`, `pend_flags` and the variable that its last `krhino_event_get` was given for the result. -/
structure EventKern where
  kern : Kern
  isEvent : ℕ → Bool
  flags : ℕ → BitVec 32
  pendOption : ℕ → UInt8
  pendFlags : ℕ → BitVec 32
  actlFlags : ℕ → BitVec 32

/-- The test of `krhino_event_get` and of `event_set`. SRCLINE: k_event.c:184-198, 287-299 -/
def flagsMet (cur : BitVec 32) (opt : UInt8) (flags : BitVec 32) : Bool :=
  if opt &&& flagsAndMask ≠ 0 then cur &&& flags = flags else cur &&& flags ≠ 0

/-- SRCLINE: k_event.c:8-38 -/
def eventCreate (s : EventKern) (event : ℕ) (flags : BitVec 32) (mmAllocFlag : AllocFlag) :
    Option EventKern :=
  if (s.kern.objs event).objType ≠ .none then none
  else
    some { s with
      kern := s.kern.setObj event { s.kern.objs event with
        objType := .other, blkPolicy := .pri, blkList := [], mmAllocFlag := mmAllocFlag }
      isEvent := Function.update s.isEvent event true
      flags := Function.update s.flags event flags }

/-- `krhino_event_del` and `krhino_event_dyn_del`, which ask for different flags.
SRCLINE: k_event.c:40-79, 109-153 -/
def eventDel (fuel : ℕ) (s : EventKern) (event : ℕ) (mmAllocFlag : AllocFlag) :
    Option (EventStat × EventKern) :=
  if 0 < s.kern.intrptLevel then some (.kstat .notCalledByIntrpt, s)
  else if s.isEvent event = false then some (.kstat .kobjTypeErr, s)
  else if (s.kern.objs event).mmAllocFlag ≠ mmAllocFlag then some (.kstat .kobjDelErr, s)
  else
    let kern := s.kern.setObj event { s.kern.objs event with objType := .none }
    match pendTaskRmAll fuel kern event with
    | none => none
    | some kern =>
      some (.kstat .success, { s with
        kern := kern
        isEvent := Function.update s.isEvent event false
        flags := Function.update s.flags event 0 })

/-- No status if the caller blocks. SRCLINE: k_event.c:157-244 -/
def krhinoEventGet (s : EventKern) (event : ℕ) (flags : BitVec 32) (opt : UInt8) (ticks : ℕ) :
    Option (Option EventStat × EventKern) :=
  if opt ≠ optAnd ∧ opt ≠ optOr ∧ opt ≠ optAndClear ∧ opt ≠ optOrClear then
    some (some .noThisEventOpt, s)
  else if 0 < s.kern.intrptLevel then some (some (.kstat .notCalledByIntrpt), s)
  else if s.isEvent event = false then some (some (.kstat .kobjTypeErr), s)
  else if flagsMet (s.flags event) opt flags then
    let cur := s.flags event
    let s := { s with actlFlags := Function.update s.actlFlags s.kern.active cur }
    some (some (.kstat .success),
      if opt &&& flagsClearMask ≠ 0 then
        { s with flags := Function.update s.flags event (cur &&& ~~~flags) }
      else s)
  else if ticks = 0 then some (some (.kstat .noPendWait), s)
  else if 0 < s.kern.schedLock then some (some (.kstat .schedDisable), s)
  else
    match pendToBlkObj s.kern event s.kern.active ticks with
    | none => none
    | some kern =>
      some (none, { s with
        kern := kern
        pendOption := Function.update s.pendOption s.kern.active opt
        pendFlags := Function.update s.pendFlags s.kern.active flags })

/-- The walk over the waiting tasks; the successor of a task is read before the task is woken.
`cur` is `cur_event_flags`. SRCLINE: k_event.c:278-317 -/
def eventSetLoop (cur : BitVec 32) (event : ℕ) : EventKern → List ℕ → Option EventKern
  | s, [] => some s
  | s, task :: rest =>
    if flagsMet cur (s.pendOption task) (s.pendFlags task) then
      match pendTaskWakeup s.kern task with
      | none => none
      | some kern =>
        let s := { s with kern := kern, actlFlags := Function.update s.actlFlags task cur }
        let s :=
          if s.pendOption task &&& flagsClearMask ≠ 0 then
            { s with flags :=
                Function.update s.flags event (s.flags event &&& ~~~(s.pendFlags task)) }
          else s
        eventSetLoop cur event s rest
    else eventSetLoop cur event s rest

/-- SRCLINE: k_event.c:246-325 -/
def eventSet (s : EventKern) (event : ℕ) (flags : BitVec 32) (opt : UInt8) :
    Option (EventStat × EventKern) :=
  if s.isEvent event = false then some (.kstat .kobjTypeErr, s)
  else if opt &&& flagsAndMask ≠ 0 then
    some (.kstat .success,
      { s with flags := Function.update s.flags event (s.flags event &&& flags) })
  else
    let cur := s.flags event ||| flags
    let s := { s with flags := Function.update s.flags event cur }
    (eventSetLoop cur event s (s.kern.objs event).blkList).map fun s => (.kstat .success, s)

/-- SRCLINE: k_event.c:327-336 -/
def krhinoEventSet (s : EventKern) (event : ℕ) (flags : BitVec 32) (opt : UInt8) :
    Option (EventStat × EventKern) :=
  if opt ≠ optAnd ∧ opt ≠ optOr then some (.noThisEventOpt, s) else eventSet s event flags opt

/-- The calls on events, and whatever else happens in the kernel. -/
inductive EventAct
  | create (event : ℕ) (flags : BitVec 32) (mmAllocFlag : AllocFlag)
  | del (event : ℕ) (mmAllocFlag : AllocFlag)
  | get (event : ℕ) (flags : BitVec 32) (opt : UInt8) (ticks : ℕ)
  | set (event : ℕ) (flags : BitVec 32) (opt : UInt8)
  | kern (a : KernAct)

/-- A call for a semaphore or a queue is given an event; it returns `RHINO_KOBJ_TYPE_ERR`. -/
def wrongType (s : EventKern) : KernAct → Bool
  | .call (.blkObjPend obj _) => s.isEvent obj
  | .call (.blkObjWake obj _) => s.isEvent obj
  | .call (.blkObjDel obj) => s.isEvent obj
  | _ => false

/-- A task that calls `krhino_event_get` is the active one and ready, as in `kernStep`. -/
def eventStep (fuel : ℕ) (s : EventKern) : EventAct → Option EventKern
  | .kern a =>
    if wrongType s a then some s else (kernStep fuel s.kern a).map fun kern => { s with kern := kern }
  | .create event flags mmAllocFlag => eventCreate s event flags mmAllocFlag
  | .del event mmAllocFlag => (eventDel fuel s event mmAllocFlag).map Prod.snd
  | .get event flags opt ticks =>
    if 0 < s.kern.intrptLevel ∨ (s.kern.tasks s.kern.active).taskState = .rdy then
      (krhinoEventGet s event flags opt ticks).map Prod.snd
    else none
  | .set event flags opt => (krhinoEventSet s event flags opt).map Prod.snd

/-- A kernel without events. -/
def eventStart : EventKern where
  kern := krhinoStart
  isEvent := fun _ => false
  flags := fun _ => 0
  pendOption := fun _ => 0
  pendFlags := fun _ => 0
  actlFlags := fun _ => 0

end GenieSdk.Model.Rhino
