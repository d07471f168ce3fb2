import GenieSdk.Analysis.ReadyQueue
import GenieSdk.Model.Rhino

/-!
# Task states and lists

The state of a task says in which lists it is: a ready list, the tick list, the list of an object.
`KernOk` states this for all tasks at once. Each kernel function that edits one task is shown to
keep `KernOk` by `KernOk.update`: the lists may change at that task alone, as its state does.
-/

set_option autoImplicit false

namespace GenieSdk.Analysis.Rhino

open GenieSdk.Model.Rhino
open GenieSdk.Model (BlkState pendListAdd pendListAdd_perm)

section Projections

variable (s : Kern) (task obj : ℕ) (t : KTask) (o : KObj) (e : LockEvent)

@[simp] theorem setTask_tasks : (s.setTask task t).tasks = Function.update s.tasks task t := rfl
@[simp] theorem setTask_objs : (s.setTask task t).objs = s.objs := rfl
@[simp] theorem setTask_rq : (s.setTask task t).rq = s.rq := rfl
@[simp] theorem setTask_tickList : (s.setTask task t).tickList = s.tickList := rfl
@[simp] theorem setTask_tickCount : (s.setTask task t).tickCount = s.tickCount := rfl
@[simp] theorem setTask_active : (s.setTask task t).active = s.active := rfl
@[simp] theorem setTask_log : (s.setTask task t).log = s.log := rfl

@[simp] theorem setObj_tasks : (s.setObj obj o).tasks = s.tasks := rfl
@[simp] theorem setObj_objs : (s.setObj obj o).objs = Function.update s.objs obj o := rfl
@[simp] theorem setObj_rq : (s.setObj obj o).rq = s.rq := rfl
@[simp] theorem setObj_tickList : (s.setObj obj o).tickList = s.tickList := rfl
@[simp] theorem setObj_tickCount : (s.setObj obj o).tickCount = s.tickCount := rfl
@[simp] theorem setObj_active : (s.setObj obj o).active = s.active := rfl
@[simp] theorem setObj_log : (s.setObj obj o).log = s.log := rfl

@[simp] theorem record_tasks : (s.record e).tasks = s.tasks := rfl
@[simp] theorem record_objs : (s.record e).objs = s.objs := rfl
@[simp] theorem record_rq : (s.record e).rq = s.rq := rfl
@[simp] theorem record_tickList : (s.record e).tickList = s.tickList := rfl
@[simp] theorem record_active : (s.record e).active = s.active := rfl
@[simp] theorem record_log : (s.record e).log = s.log ++ [e] := rfl

@[simp] theorem readyAdd_tasks : (s.readyAdd task).tasks = s.tasks := rfl
@[simp] theorem readyAdd_objs : (s.readyAdd task).objs = s.objs := rfl
@[simp] theorem readyAdd_tickList : (s.readyAdd task).tickList = s.tickList := rfl
@[simp] theorem readyAdd_tickCount : (s.readyAdd task).tickCount = s.tickCount := rfl
@[simp] theorem readyAdd_active : (s.readyAdd task).active = s.active := rfl
@[simp] theorem readyAdd_log : (s.readyAdd task).log = s.log := rfl

/-- `klist_rm` edits one list. -/
theorem blkListRm_eq : blkListRm s task = { s with objs := (blkListRm s task).objs } := by
  unfold blkListRm
  split
  · rfl
  · rfl

@[simp] theorem blkListRm_tasks : (blkListRm s task).tasks = s.tasks := by rw [blkListRm_eq]
@[simp] theorem blkListRm_rq : (blkListRm s task).rq = s.rq := by rw [blkListRm_eq]
@[simp] theorem blkListRm_tickList : (blkListRm s task).tickList = s.tickList := by rw [blkListRm_eq]
@[simp] theorem blkListRm_tickCount : (blkListRm s task).tickCount = s.tickCount := by rw [blkListRm_eq]
@[simp] theorem blkListRm_active : (blkListRm s task).active = s.active := by rw [blkListRm_eq]
@[simp] theorem blkListRm_log : (blkListRm s task).log = s.log := by rw [blkListRm_eq]

/-- A task leaves the list of the object that it waits for. -/
theorem blkListRm_objs {obj : ℕ} (h : (s.tasks task).blkObj = some obj) :
    (blkListRm s task).objs =
      Function.update s.objs obj { s.objs obj with blkList := (s.objs obj).blkList.erase task } := by
  unfold blkListRm
  rw [h]
  rfl

/-- `tick_list_rm` clears `tick_head`, if it is not clear already. -/
theorem tickListRm_eq :
    tickListRm s task = { s with
      tickList := if (s.tasks task).tickHead then s.tickList.erase task else s.tickList
      tasks := Function.update s.tasks task { s.tasks task with tickHead := false } } := by
  unfold tickListRm
  split
  case isTrue => rfl
  case isFalse hclear =>
    have hsame : { s.tasks task with tickHead := false } = s.tasks task := by
      simp only [Bool.not_eq_true] at hclear
      rw [← hclear]
    rw [hsame, Function.update_eq_self]

@[simp] theorem tickListRm_objs : (tickListRm s task).objs = s.objs := by rw [tickListRm_eq]
@[simp] theorem tickListRm_rq : (tickListRm s task).rq = s.rq := by rw [tickListRm_eq]
@[simp] theorem tickListRm_tickCount : (tickListRm s task).tickCount = s.tickCount := by rw [tickListRm_eq]
@[simp] theorem tickListRm_active : (tickListRm s task).active = s.active := by rw [tickListRm_eq]
@[simp] theorem tickListRm_log : (tickListRm s task).log = s.log := by rw [tickListRm_eq]

@[simp] theorem tickListRm_tasks :
    (tickListRm s task).tasks =
      Function.update s.tasks task { s.tasks task with tickHead := false } := by
  rw [tickListRm_eq]

/-- A task leaves the tick list if it is in it. -/
theorem tickListRm_tickList :
    (tickListRm s task).tickList =
      if (s.tasks task).tickHead then s.tickList.erase task else s.tickList := by
  rw [tickListRm_eq]

end Projections

/-- The task waits for an object. -/
def Pending (t : KTask) : Prop := t.taskState = .pend ∨ t.taskState = .pendSuspended

/-- The task is suspended, whatever else it waits for. -/
def Suspended (t : KTask) : Prop :=
  t.taskState = .suspended ∨ t.taskState = .pendSuspended ∨ t.taskState = .sleepSuspended

/-- A finite timeout of the task is pending. -/
def Timed (t : KTask) : Prop :=
  t.taskState = .sleep ∨ t.taskState = .sleepSuspended ∨ (Pending t ∧ t.waitTicks ≠ waitForever)

instance (t : KTask) : Decidable (Pending t) := inferInstanceAs (Decidable (_ ∨ _))

/-- The priority at which the task is ready. -/
def readyPrio (t : KTask) : Option ℕ := if t.taskState = .rdy then some t.prio else none

/-- The object the task waits for. -/
def waitsFor (t : KTask) : Option ℕ := if Pending t then t.blkObj else none

/-- The tick list holds the tasks `timed`, once each. -/
structure TickListOk (l : List ℕ) (timed : ℕ → Prop) : Prop where
  mem_iff : ∀ t, t ∈ l ↔ timed t
  nodup : l.Nodup

/-- The list of each object holds the tasks that wait for it, once each. -/
structure BlkListsOk (objs : ℕ → KObj) (waits : ℕ → Option ℕ) : Prop where
  mem_iff : ∀ t o, t ∈ (objs o).blkList ↔ waits t = some o
  nodup : ∀ o, (objs o).blkList.Nodup

/-- The fields of one task fit together. -/
structure TaskOk (t : KTask) : Prop where
  prio_lt : t.prio < priMax
  bPrio_lt : t.bPrio < priMax
  tickHead_iff : t.tickHead = true ↔ Timed t
  count : Suspended t → 1 ≤ t.suspendCount ∧ t.suspendCount < 2 ^ 8
  blkObj : Pending t → ∃ o, t.blkObj = some o

/-- The lists and the task states fit together. `del` is the object that is being deleted, if
any: its type is cleared before its list is. -/
structure KernOk (s : Kern) (del : Option ℕ) : Prop where
  rq : RunQueueOk s.rq (fun t => readyPrio (s.tasks t))
  tick : TickListOk s.tickList (fun t => Timed (s.tasks t))
  blk : BlkListsOk s.objs (fun t => waitsFor (s.tasks t))
  tasks : ∀ t, TaskOk (s.tasks t)
  dead : ∀ o, (s.objs o).objType = .none → some o ≠ del → (s.objs o).blkList = []

section Lists

variable {l l' : List ℕ} {timed : ℕ → Prop} {objs : ℕ → KObj} {waits : ℕ → Option ℕ} {task obj : ℕ}

/-- The tick list stays right when a task with a timeout joins it. -/
theorem TickListOk.insert (h : TickListOk l timed) (ht : ¬ timed task)
    (hl : l'.Perm (task :: l)) : TickListOk l' (Function.update timed task True) where
  mem_iff t := by
    rw [hl.mem_iff, List.mem_cons, h.mem_iff, Function.update_apply]
    by_cases htt : t = task
    · simp [htt]
    · simp [htt]
  nodup := by
    rw [hl.nodup_iff, List.nodup_cons, h.mem_iff]
    exact ⟨ht, h.nodup⟩

/-- The tick list stays right when a task leaves it. -/
theorem TickListOk.erase (h : TickListOk l timed) :
    TickListOk (l.erase task) (Function.update timed task False) where
  mem_iff t := by
    rw [h.nodup.mem_erase_iff, h.mem_iff, Function.update_apply]
    by_cases htt : t = task
    · simp [htt]
    · simp [htt]
  nodup := h.nodup.erase task

/-- A task leaves the list of the object it waits for. -/
theorem BlkListsOk.erase (h : BlkListsOk objs waits) (hw : waits task = some obj) {o : KObj}
    (ho : o.blkList = (objs obj).blkList.erase task) :
    BlkListsOk (Function.update objs obj o) (Function.update waits task none) where
  mem_iff t p := by
    simp only [Function.update_apply]
    by_cases hp : p = obj
    · subst hp
      rw [if_pos rfl, ho, (h.nodup p).mem_erase_iff, h.mem_iff]
      by_cases htt : t = task
      · simp [htt]
      · simp [htt]
    · rw [if_neg hp, h.mem_iff]
      by_cases htt : t = task
      · subst htt
        simp [hw, Ne.symm hp]
      · simp [htt]
  nodup p := by
    rw [Function.update_apply]
    split
    · rw [ho]
      exact (h.nodup obj).erase task
    · exact h.nodup p

/-- A task that waits for nothing enters the list of an object. -/
theorem BlkListsOk.insert (h : BlkListsOk objs waits) (hw : waits task = none) {o : KObj}
    (ho : o.blkList.Perm (task :: (objs obj).blkList)) :
    BlkListsOk (Function.update objs obj o) (Function.update waits task (some obj)) where
  mem_iff t p := by
    simp only [Function.update_apply]
    by_cases hp : p = obj
    · subst hp
      rw [if_pos rfl, ho.mem_iff, List.mem_cons, h.mem_iff]
      by_cases htt : t = task
      · simp [htt]
      · simp [htt]
    · rw [if_neg hp, h.mem_iff]
      by_cases htt : t = task
      · subst htt
        simp [hw, Ne.symm hp]
      · simp [htt]
  nodup p := by
    rw [Function.update_apply]
    split
    · rw [ho.nodup_iff, List.nodup_cons, h.mem_iff, hw]
      exact ⟨by simp, h.nodup obj⟩
    · exact h.nodup p

/-- An object is written and its list keeps its tasks. -/
theorem BlkListsOk.set (h : BlkListsOk objs waits) {o : KObj}
    (ho : o.blkList.Perm (objs obj).blkList) : BlkListsOk (Function.update objs obj o) waits where
  mem_iff t p := by
    rw [Function.update_apply]
    split
    case isTrue hp => rw [hp, ho.mem_iff, h.mem_iff]
    case isFalse => exact h.mem_iff t p
  nodup p := by
    rw [Function.update_apply]
    split
    · exact ho.nodup_iff.2 (h.nodup obj)
    · exact h.nodup p

/-- The insertion puts the task among those in the list. -/
theorem tickListPriInsert_perm (s : Kern) (task val : ℕ) (l : List ℕ) :
    (tickListPriInsert s task val l).Perm (task :: l) := by
  induction l with
  | nil => exact List.Perm.refl _
  | cons q rest ih =>
    unfold tickListPriInsert
    split
    · exact List.Perm.refl _
    · exact (ih.cons q).trans (List.Perm.swap task q rest)

end Lists

section Tasks

variable {s s' : Kern} {del : Option ℕ} {task : ℕ} {t' : KTask}

/-- A function of the tasks after one of them is written. -/
theorem comp_update {β : Type} (f : KTask → β) (tasks : ℕ → KTask) (task : ℕ) (t' : KTask) :
    (fun t => f (Function.update tasks task t' t)) =
      Function.update (fun t => f (tasks t)) task (f t') := by
  funext t
  simp only [Function.update_apply]
  split
  · rfl
  · rfl

/-- The run queue of a task that stays where it is; then the same for the other lists. -/
theorem KernOk.rqSame {r : Option ℕ} (h : KernOk s del) (hr : readyPrio (s.tasks task) = r) :
    RunQueueOk s.rq (Function.update (fun t => readyPrio (s.tasks t)) task r) := by
  rw [← hr, Function.update_eq_self task fun t => readyPrio (s.tasks t)]
  exact h.rq

/-- The tick list is right for a task whose timeout is as before. -/
theorem KernOk.tickSame {b : Prop} (h : KernOk s del) (hb : Timed (s.tasks task) ↔ b) :
    TickListOk s.tickList (Function.update (fun t => Timed (s.tasks t)) task b) := by
  rw [← propext hb, Function.update_eq_self task fun t => Timed (s.tasks t)]
  exact h.tick

/-- The lists of the objects are right for a task that waits as before. -/
theorem KernOk.blkSame {w : Option ℕ} (h : KernOk s del) (hw : waitsFor (s.tasks task) = w) :
    BlkListsOk s.objs (Function.update (fun t => waitsFor (s.tasks t)) task w) := by
  rw [← hw, Function.update_eq_self task fun t => waitsFor (s.tasks t)]
  exact h.blk

/-- **One task changes**, and each list changes at that task alone. -/
theorem KernOk.update {r w : Option ℕ} {b : Prop} (h : KernOk s del) (t' : KTask)
    (htasks : s'.tasks = Function.update s.tasks task t') (hok : TaskOk t')
    (hready : readyPrio t' = r) (htimed : Timed t' ↔ b) (hwaits : waitsFor t' = w)
    (hrq : RunQueueOk s'.rq (Function.update (fun t => readyPrio (s.tasks t)) task r))
    (htick : TickListOk s'.tickList (Function.update (fun t => Timed (s.tasks t)) task b))
    (hblk : BlkListsOk s'.objs (Function.update (fun t => waitsFor (s.tasks t)) task w))
    (hdead : ∀ o, (s'.objs o).objType = .none → some o ≠ del → (s'.objs o).blkList = []) :
    KernOk s' del where
  rq := by
    rw [htasks, comp_update, hready]
    exact hrq
  tick := by
    rw [htasks, comp_update, propext htimed]
    exact htick
  blk := by
    rw [htasks, comp_update, hwaits]
    exact hblk
  tasks t := by
    rw [htasks, Function.update_apply]
    split
    · exact hok
    · exact h.tasks t
  dead := hdead

/-- A task changes and stays in the lists it is in, those of the run queue apart. -/
theorem KernOk.updateReady {r : Option ℕ} (h : KernOk s del) (t' : KTask)
    (htasks : s'.tasks = Function.update s.tasks task t') (htick : s'.tickList = s.tickList)
    (hobjs : s'.objs = s.objs) (hok : TaskOk t') (htimed : Timed t' ↔ Timed (s.tasks task))
    (hwaits : waitsFor t' = waitsFor (s.tasks task)) (hready : readyPrio t' = r)
    (hrq : RunQueueOk s'.rq (Function.update (fun t => readyPrio (s.tasks t)) task r)) :
    KernOk s' del := by
  refine h.update t' htasks hok hready htimed hwaits hrq ?_ ?_ ?_
  · rw [htick]
    exact h.tickSame Iff.rfl
  · rw [hobjs]
    exact h.blkSame rfl
  · rw [hobjs]
    exact h.dead

/-- A task is written and stays in its lists. -/
theorem KernOk.setTask (h : KernOk s del) (hok : TaskOk t')
    (hready : readyPrio t' = readyPrio (s.tasks task)) (htimed : Timed t' ↔ Timed (s.tasks task))
    (hwaits : waitsFor t' = waitsFor (s.tasks task)) : KernOk (s.setTask task t') del := by
  exact h.updateReady t' rfl rfl rfl hok htimed hwaits hready (h.rqSame rfl)

/-- An object is written and keeps its list. -/
theorem KernOk.setObj (h : KernOk s del) (obj : ℕ) (o : KObj)
    (ho : o.blkList.Perm (s.objs obj).blkList)
    (hdead : o.objType = .none → some obj ≠ del → o.blkList = []) :
    KernOk (s.setObj obj o) del where
  rq := h.rq
  tick := h.tick
  blk := h.blk.set ho
  tasks := h.tasks
  dead p hp hne := by
    simp only [setObj_objs, Function.update_apply] at hp ⊢
    split at hp
    case isTrue heq =>
      rw [if_pos heq]
      exact hdead hp (heq ▸ hne)
    case isFalse hpne =>
      rw [if_neg hpne]
      exact h.dead p hp hne

/-- An event of the log leaves the kernel right. -/
theorem KernOk.record (h : KernOk s del) (e : LockEvent) : KernOk (s.record e) del :=
  ⟨h.rq, h.tick, h.blk, h.tasks, h.dead⟩

/-- What it takes to be `TaskOk` in a state with no timeout and no object. -/
theorem TaskOk.idle {t : KTask} (h : TaskOk t) (hprio : t'.prio = t.prio) (hb : t'.bPrio = t.bPrio)
    (hstate : t'.taskState = .rdy ∨ t'.taskState = .deleted ∨ (t'.taskState = .suspended ∧
      1 ≤ t'.suspendCount ∧ t'.suspendCount < 2 ^ 8))
    (htick : t'.tickHead = false) : TaskOk t' where
  prio_lt := by
    rw [hprio]
    exact h.prio_lt
  bPrio_lt := by
    rw [hb]
    exact h.bPrio_lt
  tickHead_iff := by
    obtain hs | hs | ⟨hs, -⟩ := hstate
    all_goals simp [Timed, Pending, hs, htick]
  count := by
    intro hsusp
    obtain hs | hs | ⟨hs, hc⟩ := hstate
    · simp [Suspended, hs] at hsusp
    · simp [Suspended, hs] at hsusp
    · exact hc
  blkObj := by
    intro hp
    obtain hs | hs | ⟨hs, -⟩ := hstate
    all_goals simp [Pending, hs] at hp

/-- The tick list after `tick_list_rm`. -/
theorem KernOk.tickErase (h : KernOk s del) (task : ℕ) :
    TickListOk (if (s.tasks task).tickHead then s.tickList.erase task else s.tickList)
      (Function.update (fun t => Timed (s.tasks t)) task False) := by
  split
  case isTrue => exact h.tick.erase
  case isFalse hclear =>
    have hnot : Timed (s.tasks task) = False := by
      rw [eq_iff_iff, ← (h.tasks task).tickHead_iff]
      simpa using hclear
    exact h.tickSame (iff_of_eq hnot)

/-- Erasing from the list of one object empties no other and fills none. -/
theorem KernOk.deadErase {obj : ℕ} (h : KernOk s del) (l : List ℕ)
    (hl : (s.objs obj).blkList = [] → l = []) (o : ℕ)
    (ho : (Function.update s.objs obj { s.objs obj with blkList := l } o).objType = .none)
    (hne : some o ≠ del) :
    (Function.update s.objs obj { s.objs obj with blkList := l } o).blkList = [] := by
  rw [Function.update_apply] at ho ⊢
  split at ho
  case isTrue heq =>
    rw [if_pos heq]
    subst heq
    exact hl (h.dead o ho hne)
  case isFalse hneq =>
    rw [if_neg hneq]
    exact h.dead o ho hne

/-- **A wait for an object ends**: the task leaves the object's list and the tick list, and enters
a ready list if it becomes ready. -/
theorem KernOk.leave (h : KernOk s del) (t' : KTask) (hpend : Pending (s.tasks task))
    (htasks : s'.tasks = Function.update s.tasks task t')
    (htick : s'.tickList = (tickListRm s task).tickList)
    (hobjs : s'.objs = (blkListRm s task).objs) (hprio : t'.prio = (s.tasks task).prio)
    (hok : TaskOk t')
    (hstate : (t'.taskState = .rdy ∧
        ∃ activePrio, s'.rq = readyListAdd s.rq task (s.tasks task).prio activePrio) ∨
      ((t'.taskState = .deleted ∨ t'.taskState = .suspended) ∧ s'.rq = s.rq)) :
    KernOk s' del := by
  obtain ⟨obj, hobj⟩ := (h.tasks task).blkObj hpend
  have hwait : waitsFor (s.tasks task) = some obj := by
    rw [waitsFor, if_pos hpend, hobj]
  have hnrdy : readyPrio (s.tasks task) = none := by
    obtain hp | hp := hpend
    all_goals simp [readyPrio, hp]
  have hnot : waitsFor t' = none ∧ ¬ Timed t' := by
    obtain ⟨hs, -⟩ | ⟨hs | hs, -⟩ := hstate
    all_goals simp [waitsFor, Timed, Pending, hs]
  refine h.update t' htasks hok rfl (iff_false_intro hnot.2) hnot.1 ?_ ?_ ?_ ?_
  · obtain ⟨hs, activePrio, hrq⟩ | ⟨hs, hrq⟩ := hstate
    · rw [hrq, show readyPrio t' = some (s.tasks task).prio by simp [readyPrio, hs, hprio]]
      exact h.rq.add hnrdy (h.tasks task).prio_lt activePrio
    · have hr : readyPrio t' = none := by
        obtain hs | hs := hs
        all_goals simp [readyPrio, hs]
      rw [hrq, hr]
      exact h.rqSame hnrdy
  · rw [htick, tickListRm_tickList]
    exact h.tickErase task
  · rw [hobjs, blkListRm_objs s task hobj]
    exact h.blk.erase hwait rfl
  · rw [hobjs, blkListRm_objs s task hobj]
    apply h.deadErase
    intro hnil
    rw [hnil]
    rfl

/-- A task ends its wait and keeps its count, if it is suspended. -/
theorem KernOk.leaveTaskOk (h : KernOk s del) (hprio : t'.prio = (s.tasks task).prio)
    (hb : t'.bPrio = (s.tasks task).bPrio) (hcount : t'.suspendCount = (s.tasks task).suspendCount)
    (htick : t'.tickHead = false)
    (hstate : t'.taskState = .rdy ∨ t'.taskState = .deleted ∨
      (t'.taskState = .suspended ∧ (s.tasks task).taskState = .pendSuspended)) : TaskOk t' := by
  apply (h.tasks task).idle hprio hb _ htick
  obtain hs | hs | ⟨hs, hold⟩ := hstate
  · exact .inl hs
  · exact .inr (.inl hs)
  · refine .inr (.inr ⟨hs, ?_⟩)
    rw [hcount]
    exact (h.tasks task).count (.inr (.inl hold))

/-- **Waking a task** with `pend_task_wakeup` or `pend_task_rm`. -/
theorem pendTaskEnd_ok {b : BlkState} (h : KernOk s del) (he : pendTaskEnd s task b = some s') :
    KernOk s' del := by
  unfold pendTaskEnd at he
  split at he
  case h_1 hs =>
    cases he
    refine h.leave { s.tasks task with
      taskState := .rdy, tickHead := false, blkState := b, blkObj := none } (.inl hs) ?_ ?_ ?_ rfl
      (h.leaveTaskOk rfl rfl rfl rfl (.inl rfl)) (.inl ⟨rfl, (s.tasks s.active).prio, ?_⟩)
    · simp
    · simp [tickListRm_tickList]
    · simp
    · simp [Kern.readyAdd]
  case h_2 hs =>
    cases he
    refine h.leave { s.tasks task with
      taskState := .suspended, tickHead := false, blkState := b, blkObj := none } (.inr hs) ?_ ?_ ?_ rfl
      (h.leaveTaskOk rfl rfl rfl rfl (.inr (.inr ⟨rfl, hs⟩))) (.inr ⟨.inr rfl, ?_⟩)
    · simp
    · simp [tickListRm_tickList]
    · simp
    · simp
  case h_3 => cases he

/-- A task after its wait was cancelled, before the owner of the mutex gets its priority anew. -/
def cancelled (s : Kern) (task : ℕ) (taskState : TaskStat) (blkState : BlkState) : Kern :=
  let s := blkListRm (tickListRm s task) task
  let s := if taskState = .rdy then s.readyAdd task else s
  s.setTask task { s.tasks task with taskState := taskState, blkState := blkState }

/-- `pend_cancel` takes the task off its lists and then resets the priorities of the owner of its mutex. -/
theorem pendCancel_eq (fuel : ℕ) (s : Kern) (task : ℕ) (taskState : TaskStat) (b : BlkState) :
    pendCancel fuel s task taskState b =
      mutexTaskPriReset fuel (cancelled s task taskState b) task := rfl

/-- The task that stops waiting has its new state. -/
theorem cancelled_tasks (s : Kern) (task : ℕ) (st : TaskStat) (b : BlkState) :
    (cancelled s task st b).tasks = Function.update s.tasks task
      { s.tasks task with tickHead := false, taskState := st, blkState := b } := by
  unfold cancelled
  split
  · simp
  · simp

/-- Its object has it no longer in its list. -/
theorem cancelled_objs {obj : ℕ} (hobj : (s.tasks task).blkObj = some obj) (st : TaskStat)
    (b : BlkState) :
    (cancelled s task st b).objs = Function.update s.objs obj
      { s.objs obj with blkList := (s.objs obj).blkList.erase task } := by
  have hrm : (blkListRm (tickListRm s task) task).objs = Function.update s.objs obj
      { s.objs obj with blkList := (s.objs obj).blkList.erase task } := by
    have hobj' : ((tickListRm s task).tasks task).blkObj = some obj := by simpa using hobj
    rw [blkListRm_objs _ _ hobj', tickListRm_objs]
  unfold cancelled
  split
  · simpa using hrm
  · simpa using hrm

/-- It is in the ready queue if it is ready now. -/
theorem cancelled_rq (s : Kern) (task : ℕ) (st : TaskStat) (b : BlkState) :
    ∃ activePrio, (cancelled s task st b).rq =
      if st = .rdy then readyListAdd s.rq task (s.tasks task).prio activePrio else s.rq := by
  unfold cancelled
  by_cases hr : st = .rdy
  · simp only [if_pos hr]
    exact ⟨_, by simp [Kern.readyAdd]; rfl⟩
  · simp only [if_neg hr]
    exact ⟨0, by simp⟩

/-- **A wait is cancelled** by a timeout, an abort or the task's deletion. -/
theorem cancelled_ok {st : TaskStat} {b : BlkState} (h : KernOk s del)
    (hpend : Pending (s.tasks task))
    (hst : st = .rdy ∨ st = .deleted ∨
      (st = .suspended ∧ (s.tasks task).taskState = .pendSuspended)) :
    KernOk (cancelled s task st b) del := by
  obtain ⟨obj, hobj⟩ := (h.tasks task).blkObj hpend
  have hok : TaskOk { s.tasks task with tickHead := false, taskState := st, blkState := b } :=
    h.leaveTaskOk rfl rfl rfl rfl hst
  refine h.leave _ hpend (cancelled_tasks s task st b) ?_ ?_ rfl hok ?_
  · unfold cancelled
    split
    · simp
    · simp
  · rw [cancelled_objs hobj, blkListRm_objs s task hobj]
  · obtain ⟨activePrio, hrq⟩ := cancelled_rq s task st b
    obtain hs | hs | ⟨hs, -⟩ := hst
    · exact .inl ⟨hs, activePrio, by rw [hrq, if_pos hs]⟩
    · exact .inr ⟨.inl hs, by rw [hrq, hs]; rfl⟩
    · exact .inr ⟨.inr hs, by rw [hrq, hs]; rfl⟩

end Tasks

section Priorities

variable {s s' : Kern} {del : Option ℕ} {task newPri : ℕ}

/-- `readyRm` changes the run queue alone. -/
theorem readyRm_cases (h : s.readyRm task = some s') :
    ∃ rq, readyListRm s.rq task (s.tasks task).prio = some rq ∧ s' = { s with rq := rq } := by
  obtain ⟨rq, hrq, rfl⟩ := Option.map_eq_some_iff.1 h
  exact ⟨rq, hrq, rfl⟩

/-- A task's priority does not change whether its other fields fit together. -/
theorem TaskOk.setPrio {t : KTask} (h : TaskOk t) (hp : newPri < priMax) :
    TaskOk { t with prio := newPri } :=
  ⟨hp, h.bPrio_lt, h.tickHead_iff, h.count, h.blkObj⟩

/-- A ready task moves to the list of its new priority. -/
theorem taskPriReady_ok (h : KernOk s del) (hp : newPri < priMax)
    (hrdy : (s.tasks task).taskState = .rdy) (hc : taskPriReady s task newPri = some s') :
    KernOk s' del := by
  unfold taskPriReady at hc
  split at hc
  case h_1 => cases hc
  case h_2 s₁ hrm =>
    obtain ⟨rq, hrq, rfl⟩ := readyRm_cases hrm
    cases hc
    have hr : readyPrio (s.tasks task) = some (s.tasks task).prio := by simp [readyPrio, hrdy]
    have hrm := h.rq.rm hr hrq
    refine h.updateReady (r := some newPri) { s.tasks task with prio := newPri } rfl rfl rfl
      ((h.tasks task).setPrio hp) Iff.rfl rfl (by simp [readyPrio, hrdy]) ?_
    rw [← Function.update_idem (a := task) none]
    have hnone : Function.update (fun t => readyPrio (s.tasks t)) task none task = none :=
      Function.update_self ..
    show RunQueueOk (ite _ _ _) _
    split
    · exact hrm.addHead hnone hp
    · exact hrm.addTail hnone hp

/-- The priority of a task that is not ready is written. -/
theorem KernOk.setPrio (h : KernOk s del) (hp : newPri < priMax)
    (hrdy : (s.tasks task).taskState ≠ .rdy) :
    KernOk (s.setTask task { s.tasks task with prio := newPri }) del := by
  apply h.setTask ((h.tasks task).setPrio hp)
  · simp [readyPrio, hrdy]
  · exact Iff.rfl
  · rfl

/-- The list of an object after the reordering of one of its tasks. -/
theorem pendListReorder_objs {obj : ℕ} (hobj : (s.tasks task).blkObj = some obj)
    (hmem : task ∈ (s.objs obj).blkList) :
    ∃ l, l.Perm (s.objs obj).blkList ∧
      ((s.objs obj).blkPolicy = .pri →
        l = pendListAdd (fun t => (s.tasks t).prio) task ((s.objs obj).blkList.erase task)) ∧
      pendListReorder s obj task = s.setObj obj { s.objs obj with blkList := l } := by
  unfold pendListReorder
  split
  case isTrue hpol =>
    refine ⟨pendListAdd (fun t => (s.tasks t).prio) task ((s.objs obj).blkList.erase task), ?_,
      fun _ => rfl, ?_⟩
    · exact (pendListAdd_perm _ _ _).trans (List.perm_cons_erase hmem).symm
    · unfold blkListAdd blkListRm
      simp only [hobj]
      simp [Kern.setObj, hpol]
  case isFalse hpol =>
    refine ⟨(s.objs obj).blkList, List.Perm.refl _, fun h => absurd h hpol, ?_⟩
    simp [Kern.setObj]

/-- The kernel stays right when a task is put in its place among those that wait. -/
theorem pendListReorder_ok {obj : ℕ} (h : KernOk s del) (hpend : Pending (s.tasks task))
    (hobj : (s.tasks task).blkObj = some obj) : KernOk (pendListReorder s obj task) del := by
  have hmem : task ∈ (s.objs obj).blkList := by
    rw [h.blk.mem_iff, waitsFor, if_pos hpend, hobj]
  obtain ⟨l, hl, -, heq⟩ := pendListReorder_objs hobj hmem
  rw [heq]
  apply h.setObj obj _ hl
  intro hnone hne
  have hnil := h.dead obj hnone hne
  rw [hnil] at hmem
  cases hmem

/-- The kernel stays right when a link of the mutex lists is written. -/
theorem writePtr_ok (h : KernOk s del) (ptr : MutexListPtr) (v : Option ℕ) :
    KernOk (s.writePtr ptr v) del := by
  cases ptr with
  | ofTask task =>
    have hok := h.tasks task
    exact h.setTask ⟨hok.prio_lt, hok.bPrio_lt, hok.tickHead_iff, hok.count, hok.blkObj⟩ rfl
      Iff.rfl rfl
  | ofMutex mutex => exact h.setObj mutex _ (List.Perm.refl _) (h.dead mutex)

/-- The priority of the first task that waits is a priority. -/
theorem firstBlkPrio_lt {mutex pri : ℕ} (h : KernOk s del) (hp : pri < priMax) :
    firstBlkPrio s mutex pri < priMax := by
  unfold firstBlkPrio
  split
  · exact hp
  · exact (h.tasks _).prio_lt

/-- The walk over the mutexes of a task leaves the kernel right and gives a priority. -/
theorem mutexPriLookLoop_ok {rel : Option ℕ} {fuel pri p : ℕ} {prev : MutexListPtr}
    (h : KernOk s del) (hpri : pri < priMax) (hnew : newPri < priMax)
    (hl : mutexPriLookLoop rel fuel s prev pri newPri = some (p, s')) :
    KernOk s' del ∧ p < priMax := by
  induction fuel generalizing s prev pri newPri with
  | zero => cases hl
  | succ fuel ih =>
    unfold mutexPriLookLoop at hl
    split at hl
    case h_1 =>
      cases hl
      exact ⟨h, hnew⟩
    case h_2 mutex _ =>
      split at hl
      case isTrue => exact ih (writePtr_ok h _ _) hpri hnew hl
      case isFalse =>
        have hfirst : firstBlkPrio s mutex pri < priMax := firstBlkPrio_lt h hpri
        refine ih h hfirst ?_ hl
        split
        · exact hfirst
        · exact hnew

/-- `mutex_pri_look` leaves the kernel right and gives a priority. -/
theorem mutexPriLook_ok {rel : Option ℕ} {fuel p : ℕ} (h : KernOk s del)
    (hl : mutexPriLook fuel s task rel = some (p, s')) : KernOk s' del ∧ p < priMax :=
  mutexPriLookLoop_ok h (h.tasks task).bPrio_lt (h.tasks task).bPrio_lt hl

/-- Without a mutex to release, `mutex_pri_look` writes nothing. -/
theorem mutexPriLookLoop_none {fuel pri p : ℕ} {prev : MutexListPtr}
    (hl : mutexPriLookLoop none fuel s prev pri newPri = some (p, s')) : s' = s := by
  induction fuel generalizing prev pri newPri with
  | zero => cases hl
  | succ fuel ih =>
    unfold mutexPriLookLoop at hl
    split at hl
    case h_1 =>
      cases hl
      rfl
    case h_2 mutex _ =>
      split at hl
      case isTrue hrel => cases hrel
      case isFalse => exact ih hl

/-- A blocked task has its new priority and its place in the object's list. -/
def reordered (s : Kern) (task newPri obj : ℕ) : Kern :=
  pendListReorder (s.setTask task { s.tasks task with prio := newPri }) obj task

/-- What `task_pri_change` does, round by round. -/
inductive PriChange : Kern → ℕ → ℕ → Kern → Prop
  | same {s : Kern} {task newPri : ℕ} (hprio : (s.tasks task).prio = newPri) :
    PriChange s task newPri s
  | ready {s s' : Kern} {task newPri : ℕ} (hprio : (s.tasks task).prio ≠ newPri)
    (hstate : (s.tasks task).taskState = .rdy) (hready : taskPriReady s task newPri = some s') :
    PriChange s task newPri s'
  | still {s : Kern} {task newPri : ℕ} (hprio : (s.tasks task).prio ≠ newPri)
    (hstate : (s.tasks task).taskState = .sleep ∨ (s.tasks task).taskState = .suspended ∨
      (s.tasks task).taskState = .sleepSuspended) :
    PriChange s task newPri (s.setTask task { s.tasks task with prio := newPri })
  | blocked {s : Kern} {task newPri obj : ℕ} (hprio : (s.tasks task).prio ≠ newPri)
    (hpend : Pending (s.tasks task)) (hobj : (s.tasks task).blkObj = some obj)
    (htype : (s.objs obj).objType ≠ .mutex) : PriChange s task newPri (reordered s task newPri obj)
  | raise {s s' : Kern} {task newPri obj owner : ℕ} (hprio : (s.tasks task).prio ≠ newPri)
    (hpend : Pending (s.tasks task)) (hobj : (s.tasks task).blkObj = some obj)
    (htype : (s.objs obj).objType = .mutex) (howner : (s.objs obj).mutexTask = some owner)
    (hlt : newPri < ((reordered s task newPri obj).tasks owner).prio)
    (hrest : PriChange (reordered s task newPri obj) owner newPri s') : PriChange s task newPri s'
  | look {s s' : Kern} {task newPri obj owner fuel lookPri : ℕ}
    (hprio : (s.tasks task).prio ≠ newPri)
    (hpend : Pending (s.tasks task)) (hobj : (s.tasks task).blkObj = some obj)
    (htype : (s.objs obj).objType = .mutex) (howner : (s.objs obj).mutexTask = some owner)
    (hle : ((reordered s task newPri obj).tasks owner).prio ≤ newPri)
    (heq : ((reordered s task newPri obj).tasks owner).prio = (s.tasks task).prio)
    (hlook : mutexPriLook fuel (reordered s task newPri obj) owner none =
      some (lookPri, reordered s task newPri obj))
    (hrest : PriChange (reordered s task newPri obj) owner lookPri s') : PriChange s task newPri s'
  | stop {s : Kern} {task newPri obj owner : ℕ} (hprio : (s.tasks task).prio ≠ newPri)
    (hpend : Pending (s.tasks task)) (hobj : (s.tasks task).blkObj = some obj)
    (htype : (s.objs obj).objType = .mutex) (howner : (s.objs obj).mutexTask = some owner)
    (hle : ((reordered s task newPri obj).tasks owner).prio ≤ newPri)
    (hne : ((reordered s task newPri obj).tasks owner).prio ≠ (s.tasks task).prio) :
    PriChange s task newPri (reordered s task newPri obj)

/-- A new place in the list changes neither the type nor the owner of an object. -/
theorem reordered_obj (s : Kern) (task newPri obj : ℕ) :
    ((reordered s task newPri obj).objs obj).objType = (s.objs obj).objType ∧
      ((reordered s task newPri obj).objs obj).mutexTask = (s.objs obj).mutexTask := by
  unfold reordered pendListReorder blkListAdd blkListRm
  split
  · split
    · simp
    · simp [Function.update_apply]
      split
      · simp_all
      · simp_all
  · simp

/-- The walk of `task_pri_change` is one of the relation. -/
theorem taskPriChange_sound {fuel : ℕ} (hc : taskPriChange fuel s task newPri = some s') :
    PriChange s task newPri s' := by
  induction fuel generalizing s task newPri with
  | zero => cases hc
  | succ fuel ih =>
    unfold taskPriChange at hc
    split at hc
    case isTrue hprio =>
      cases hc
      exact .same hprio
    case isFalse hprio =>
      split at hc
      case h_1 hs => exact .ready hprio hs hc
      case h_2 hs =>
        cases hc
        exact .still hprio (.inl hs)
      case h_3 hs =>
        cases hc
        exact .still hprio (.inr (.inl hs))
      case h_4 hs =>
        cases hc
        exact .still hprio (.inr (.inr hs))
      case h_5 => cases hc
      case h_6 => cases hc
      case h_7 h1 h2 h3 h4 h5 h6 =>
        have hpend : Pending (s.tasks task) := by
          unfold Pending
          cases hs : (s.tasks task).taskState <;> simp_all
        cases hobj : (s.tasks task).blkObj with
        | none =>
          rw [hobj] at hc
          cases hc
        | some obj =>
          obtain ⟨htype, howner⟩ := reordered_obj s task newPri obj
          rw [hobj] at hc
          change (if ((reordered s task newPri obj).objs obj).objType = .mutex then _
            else _) = _ at hc
          rw [htype] at hc
          split at hc
          case isFalse hne =>
            cases hc
            exact .blocked hprio hpend hobj hne
          case isTrue hmutex =>
            split at hc
            case h_1 => cases hc
            case h_2 owner hread =>
              have hown : (s.objs obj).mutexTask = some owner := howner.symm.trans hread
              split at hc
              case isTrue hlt => exact .raise hprio hpend hobj hmutex hown hlt (ih hc)
              case isFalse hge =>
                split at hc
                case isTrue heq =>
                  split at hc
                  case h_1 => cases hc
                  case h_2 lookPri s₂ hlook =>
                    obtain rfl := mutexPriLookLoop_none hlook
                    split at hc
                    case isTrue =>
                      exact .look hprio hpend hobj hmutex hown (not_lt.1 hge) heq hlook (ih hc)
                    case isFalse hsame =>
                      cases hc
                      exact .look hprio hpend hobj hmutex hown (not_lt.1 hge) heq hlook
                        (.same (not_not.1 hsame).symm)
                case isFalse hne =>
                  cases hc
                  exact .stop hprio hpend hobj hmutex hown (not_lt.1 hge) hne

/-- The kernel stays right when a task that waits gets another priority. -/
theorem reordered_ok {obj : ℕ} (h : KernOk s del) (hp : newPri < priMax)
    (hpend : Pending (s.tasks task)) (hobj : (s.tasks task).blkObj = some obj) :
    KernOk (reordered s task newPri obj) del := by
  have hrdy : (s.tasks task).taskState ≠ .rdy := by
    obtain hs | hs := hpend
    all_goals simp [hs]
  apply pendListReorder_ok (h.setPrio hp hrdy)
  · rw [setTask_tasks, Function.update_self]
    exact hpend
  · rw [setTask_tasks, Function.update_self]
    exact hobj

/-- **Changing a priority along the chain of owners** keeps every task in its lists. -/
theorem PriChange.ok (hc : PriChange s task newPri s') (h : KernOk s del) (hp : newPri < priMax) :
    KernOk s' del := by
  induction hc with
  | same => exact h
  | ready hprio hstate hready => exact taskPriReady_ok h hp hstate hready
  | still hprio hstate =>
    apply h.setPrio hp
    obtain hs | hs | hs := hstate
    all_goals simp [hs]
  | blocked hprio hpend hobj htype => exact reordered_ok h hp hpend hobj
  | raise hprio hpend hobj htype howner hlt hrest ih =>
    exact ih (reordered_ok h hp hpend hobj) hp
  | look hprio hpend hobj htype howner hle heq hlook hrest ih =>
    have hr := reordered_ok h hp hpend hobj
    exact ih hr (mutexPriLook_ok hr hlook).2
  | stop hprio hpend hobj htype howner hle hne => exact reordered_ok h hp hpend hobj

/-- The states differ in priorities, in the order of waiting tasks, in the run queue and in the
links of the lists of mutexes, and in nothing else. -/
structure Frame (s s' : Kern) : Prop where
  task : ∀ u, s'.tasks u =
    { s.tasks u with prio := (s'.tasks u).prio, mutexList := (s'.tasks u).mutexList }
  obj : ∀ o, s'.objs o =
    { s.objs o with blkList := (s'.objs o).blkList, mutexList := (s'.objs o).mutexList }
  perm : ∀ o, (s'.objs o).blkList.Perm (s.objs o).blkList
  active : s'.active = s.active
  tickList : s'.tickList = s.tickList
  tickCount : s'.tickCount = s.tickCount
  schedLock : s'.schedLock = s.schedLock
  intrptLevel : s'.intrptLevel = s.intrptLevel
  log : s'.log = s.log

/-- Nothing changes. -/
theorem Frame.refl (s : Kern) : Frame s s :=
  ⟨fun _ => rfl, fun _ => rfl, fun _ => List.Perm.refl _, rfl, rfl, rfl, rfl, rfl, rfl⟩

/-- Two steps that leave all but priorities and the order of lists. -/
theorem Frame.trans {s₁ s₂ s₃ : Kern} (h : Frame s₁ s₂) (h' : Frame s₂ s₃) : Frame s₁ s₃ where
  task u := by rw [h'.task u, h.task u]
  obj o := by rw [h'.obj o, h.obj o]
  perm o := (h'.perm o).trans (h.perm o)
  active := h'.active.trans h.active
  tickList := h'.tickList.trans h.tickList
  tickCount := h'.tickCount.trans h.tickCount
  schedLock := h'.schedLock.trans h.schedLock
  intrptLevel := h'.intrptLevel.trans h.intrptLevel
  log := h'.log.trans h.log

/-- The links of the lists of mutexes are the same. -/
structure SameLinks (s s' : Kern) : Prop where
  task : ∀ u, (s'.tasks u).mutexList = (s.tasks u).mutexList
  obj : ∀ o, (s'.objs o).mutexList = (s.objs o).mutexList

/-- The mutex lists are the same. -/
theorem SameLinks.refl (s : Kern) : SameLinks s s := ⟨fun _ => rfl, fun _ => rfl⟩

/-- Two steps that leave the mutex lists. -/
theorem SameLinks.trans {s₁ s₂ s₃ : Kern} (h : SameLinks s₁ s₂) (h' : SameLinks s₂ s₃) :
    SameLinks s₁ s₃ :=
  ⟨fun u => (h'.task u).trans (h.task u), fun o => (h'.obj o).trans (h.obj o)⟩

/-- One task gets a priority, one object an order of its tasks. -/
theorem frame_setPrio (s : Kern) (task newPri : ℕ) :
    Frame s (s.setTask task { s.tasks task with prio := newPri }) ∧
      SameLinks s (s.setTask task { s.tasks task with prio := newPri }) := by
  refine ⟨⟨?_, fun _ => rfl, fun _ => List.Perm.refl _, rfl, rfl, rfl, rfl, rfl, rfl⟩, ?_, fun _ => rfl⟩
  all_goals
    intro u
    rw [setTask_tasks, Function.update_apply]
    split
    case isTrue hu => rw [hu]
    case isFalse => rfl

/-- An object's list in another order changes nothing else. -/
theorem frame_setBlkList {obj : ℕ} {l : List ℕ} (hl : l.Perm (s.objs obj).blkList) :
    Frame s (s.setObj obj { s.objs obj with blkList := l }) ∧
      SameLinks s (s.setObj obj { s.objs obj with blkList := l }) := by
  refine ⟨⟨fun _ => rfl, ?_, ?_, rfl, rfl, rfl, rfl, rfl, rfl⟩, fun _ => rfl, ?_⟩
  all_goals
    intro o
    rw [setObj_objs, Function.update_apply]
    split
  case refine_1.isTrue ho => rw [ho]
  case refine_1.isFalse => rfl
  case refine_2.isTrue ho =>
    rw [ho]
    exact hl
  case refine_2.isFalse => exact List.Perm.refl _
  case refine_3.isTrue ho => rw [ho]
  case refine_3.isFalse => rfl

/-- A task that waits and gets another priority changes nothing else. -/
theorem reordered_frame {obj : ℕ} (h : KernOk s del) (hpend : Pending (s.tasks task))
    (hobj : (s.tasks task).blkObj = some obj) :
    Frame s (reordered s task newPri obj) ∧ SameLinks s (reordered s task newPri obj) := by
  obtain ⟨hframe, hlinks⟩ := frame_setPrio s task newPri
  have hmem : task ∈ (s.objs obj).blkList := by
    rw [h.blk.mem_iff, waitsFor, if_pos hpend, hobj]
  obtain ⟨l, hl, -, heq⟩ := pendListReorder_objs
    (s := s.setTask task { s.tasks task with prio := newPri }) (by simpa using hobj) hmem
  obtain ⟨hframe', hlinks'⟩ := frame_setBlkList hl
  unfold reordered
  rw [heq]
  exact ⟨hframe.trans hframe', hlinks.trans hlinks'⟩

/-- Nor does a ready task. -/
theorem taskPriReady_frame (hc : taskPriReady s task newPri = some s') :
    Frame s s' ∧ SameLinks s s' := by
  obtain ⟨hframe, hlinks⟩ := frame_setPrio s task newPri
  unfold taskPriReady at hc
  split at hc
  case h_1 => cases hc
  case h_2 s₁ hrm =>
    obtain ⟨rq, -, rfl⟩ := readyRm_cases hrm
    cases hc
    exact ⟨⟨hframe.task, hframe.obj, hframe.perm, rfl, rfl, rfl, rfl, rfl, rfl⟩, hlinks.task,
      hlinks.obj⟩

/-- What a change of priorities leaves alone. -/
theorem PriChange.frame (hc : PriChange s task newPri s') (h : KernOk s del) (hp : newPri < priMax) :
    Frame s s' ∧ SameLinks s s' := by
  induction hc with
  | same => exact ⟨Frame.refl _, SameLinks.refl _⟩
  | ready hprio hstate hready => exact taskPriReady_frame hready
  | still hprio hstate => exact frame_setPrio _ _ _
  | blocked hprio hpend hobj htype => exact reordered_frame h hpend hobj
  | raise hprio hpend hobj htype howner hlt hrest ih =>
    obtain ⟨hf, hl⟩ := reordered_frame h hpend hobj
    obtain ⟨hf', hl'⟩ := ih (reordered_ok h hp hpend hobj) hp
    exact ⟨hf.trans hf', hl.trans hl'⟩
  | look hprio hpend hobj htype howner hle heq hlook hrest ih =>
    have hr := reordered_ok h hp hpend hobj
    obtain ⟨hf, hl⟩ := reordered_frame h hpend hobj
    obtain ⟨hf', hl'⟩ := ih hr (mutexPriLook_ok hr hlook).2
    exact ⟨hf.trans hf', hl.trans hl'⟩
  | stop hprio hpend hobj htype howner hle hne => exact reordered_frame h hpend hobj

/-- A link of the mutex lists changes nothing but the lists. -/
theorem writePtr_frame (s : Kern) (ptr : MutexListPtr) (v : Option ℕ) :
    Frame s (s.writePtr ptr v) := by
  cases ptr with
  | ofTask task =>
    refine ⟨?_, fun _ => rfl, fun _ => List.Perm.refl _, rfl, rfl, rfl, rfl, rfl, rfl⟩
    intro u
    simp only [Kern.writePtr, setTask_tasks, Function.update_apply]
    split
    case isTrue hu => rw [hu]
    case isFalse => rfl
  | ofMutex mutex =>
    refine ⟨fun _ => rfl, ?_, ?_, rfl, rfl, rfl, rfl, rfl, rfl⟩
    all_goals
      intro o
      simp only [Kern.writePtr, setObj_objs, Function.update_apply]
      split
    case refine_1.isTrue ho => rw [ho]
    case refine_1.isFalse => rfl
    case refine_2.isTrue ho => rw [ho]
    case refine_2.isFalse => exact List.Perm.refl _

/-- The walk over the mutexes of a task changes links only. -/
theorem mutexPriLookLoop_frame {rel : Option ℕ} {fuel pri p : ℕ} {prev : MutexListPtr}
    (hl : mutexPriLookLoop rel fuel s prev pri newPri = some (p, s')) : Frame s s' := by
  induction fuel generalizing s prev pri newPri with
  | zero => cases hl
  | succ fuel ih =>
    unfold mutexPriLookLoop at hl
    split at hl
    case h_1 =>
      cases hl
      exact Frame.refl _
    case h_2 mutex _ =>
      split at hl
      case isTrue => exact (writePtr_frame s prev _).trans (ih hl)
      case isFalse => exact ih hl

/-- `mutex_release` is a search for the priority and a change to it. -/
theorem mutexRelease_cases {fuel : ℕ} {rel : Option ℕ}
    (hr : mutexRelease fuel s task rel = some s') :
    ∃ newPri s₁, mutexPriLook fuel s task rel = some (newPri, s₁) ∧ PriChange s₁ task newPri s' := by
  unfold mutexRelease at hr
  split at hr
  case h_1 => cases hr
  case h_2 newPri s₁ hlook =>
    refine ⟨newPri, s₁, hlook, ?_⟩
    split at hr
    case isTrue => exact taskPriChange_sound hr
    case isFalse hsame =>
      cases hr
      exact .same (not_not.1 hsame).symm

/-- `mutex_release` leaves the kernel right and changes priorities and lists only. -/
theorem mutexRelease_ok {fuel : ℕ} {rel : Option ℕ} (h : KernOk s del)
    (hr : mutexRelease fuel s task rel = some s') : KernOk s' del ∧ Frame s s' := by
  obtain ⟨newPri, s₁, hlook, hchange⟩ := mutexRelease_cases hr
  obtain ⟨h₁, hp⟩ := mutexPriLook_ok h hlook
  exact ⟨hchange.ok h₁ hp, (mutexPriLookLoop_frame hlook).trans (hchange.frame h₁ hp).1⟩

/-- `mutex_task_pri_reset` releases nothing; it may change priorities. -/
theorem mutexTaskPriReset_cases {fuel : ℕ} (hr : mutexTaskPriReset fuel s task = some s') :
    ∃ obj, (s.tasks task).blkObj = some obj ∧
      (((s.objs obj).objType ≠ .mutex ∧ s' = s) ∨
      ((s.objs obj).objType = .mutex ∧ ∃ owner, (s.objs obj).mutexTask = some owner ∧
        (((s.tasks owner).prio ≠ (s.tasks task).prio ∧ s' = s) ∨
        ((s.tasks owner).prio = (s.tasks task).prio ∧ mutexRelease fuel s owner none = some s')))) := by
  unfold mutexTaskPriReset at hr
  split at hr
  case h_1 => cases hr
  case h_2 obj hobj =>
    refine ⟨obj, hobj, ?_⟩
    split at hr
    case isTrue htype =>
      split at hr
      case h_1 => cases hr
      case h_2 owner howner =>
        refine .inr ⟨htype, owner, howner, ?_⟩
        split at hr
        case isTrue heq => exact .inr ⟨heq, hr⟩
        case isFalse hne =>
          cases hr
          exact .inl ⟨hne, rfl⟩
    case isFalse htype =>
      cases hr
      exact .inl ⟨htype, rfl⟩

/-- So does `mutex_task_pri_reset`. -/
theorem mutexTaskPriReset_ok {fuel : ℕ} (h : KernOk s del)
    (hr : mutexTaskPriReset fuel s task = some s') : KernOk s' del ∧ Frame s s' := by
  obtain ⟨obj, -, ⟨-, rfl⟩ | ⟨-, owner, -, ⟨-, rfl⟩ | ⟨-, hrel⟩⟩⟩ := mutexTaskPriReset_cases hr
  · exact ⟨h, Frame.refl _⟩
  · exact ⟨h, Frame.refl _⟩
  · exact mutexRelease_ok h hrel

/-- `pend_cancel` leaves the kernel right, and beyond the task that stops waiting changes priorities and
lists only. -/
theorem pendCancel_ok {fuel : ℕ} {st : TaskStat} {b : BlkState} (h : KernOk s del)
    (hpend : Pending (s.tasks task))
    (hst : st = .rdy ∨ st = .deleted ∨
      (st = .suspended ∧ (s.tasks task).taskState = .pendSuspended))
    (hc : pendCancel fuel s task st b = some s') :
    KernOk s' del ∧ Frame (cancelled s task st b) s' := by
  rw [pendCancel_eq] at hc
  exact mutexTaskPriReset_ok (cancelled_ok h hpend hst) hc

end Priorities

end GenieSdk.Analysis.Rhino
