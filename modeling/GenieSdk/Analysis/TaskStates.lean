import GenieSdk.Analysis.TaskLists

/-!
# Task states

What creating a task, putting it to sleep, blocking it on an object, suspending and resuming it do
to its state, and that its lists follow: these calls keep `KernOk`.
-/

set_option autoImplicit false

namespace GenieSdk.Analysis.Rhino

open GenieSdk.Model.Rhino
open GenieSdk.Model (AllocFlag BlkState KStat pendListAdd pendListAdd_perm)

section TaskCalls

variable {s s' : Kern} {del : Option ℕ} {task : ℕ}

/-- What a `K_RDY` task is not. -/
theorem ready_facts {t : KTask} (h : t.taskState = .rdy) :
    readyPrio t = some t.prio ∧ ¬ Timed t ∧ waitsFor t = none := by
  simp [readyPrio, Timed, waitsFor, Pending, h]

/-- Storage without a task is in no list. -/
theorem unused_facts {t : KTask} (h : t.taskState = .seed ∨ t.taskState = .deleted) :
    readyPrio t = none ∧ ¬ Timed t ∧ waitsFor t = none := by
  obtain h | h := h
  all_goals simp [readyPrio, Timed, waitsFor, Pending, h]

/-- A new task is right. -/
theorem newTask_ok {prio ticks : ℕ} {autorun : Bool} {flag : AllocFlag} (hp : prio < priMax) :
    TaskOk (newTask prio ticks autorun flag) := by
  cases autorun
  all_goals
    exact ⟨hp, hp, by simp [Timed, Pending, newTask, KTask.zero], by simp [Suspended, newTask],
      by simp [Pending, newTask]⟩

/-- `task_create` changes nothing, or sets up one task that is not in use. -/
theorem taskCreate_cases {prio ticks : ℕ} {autorun : Bool} {flag : AllocFlag} {st : KStat}
    (hc : taskCreate s task prio ticks autorun flag = some (st, s')) :
    s' = s ∨ (((s.tasks task).taskState = .seed ∨ (s.tasks task).taskState = .deleted) ∧
      prio < priMax ∧ s'.tasks = Function.update s.tasks task (newTask prio ticks autorun flag) ∧
      s'.objs = s.objs ∧ s'.tickList = s.tickList ∧ s'.log = s.log ∧
      s'.rq = if autorun then readyListAddTail s.rq task prio else s.rq) := by
  unfold taskCreate at hc
  split_ifs at hc with hused hprio hintrpt hidle hauto
  · cases hc
    exact .inl rfl
  · cases hc
    exact .inl rfl
  · cases hc
    exact .inl rfl
  · cases hc
    exact .inr ⟨not_and_or.1 hused |>.imp not_not.1 not_not.1, not_le.1 hprio, rfl, rfl, rfl, rfl,
      by rw [if_pos hauto]; rfl⟩
  · cases hc
    exact .inr ⟨not_and_or.1 hused |>.imp not_not.1 not_not.1, not_le.1 hprio, rfl, rfl, rfl, rfl,
      by rw [if_neg hauto]; rfl⟩

/-- `task_create` keeps the kernel right. -/
theorem taskCreate_ok {prio ticks : ℕ} {autorun : Bool} {flag : AllocFlag} {st : KStat}
    (h : KernOk s del) (hc : taskCreate s task prio ticks autorun flag = some (st, s')) :
    KernOk s' del := by
  obtain rfl | ⟨hfree, hp, htasks, hobjs, htick, -, hrq⟩ := taskCreate_cases hc
  · exact h
  · obtain ⟨hready, htimed, hwaits⟩ := unused_facts hfree
    refine h.updateReady _ htasks htick hobjs (newTask_ok hp) ?_ ?_ rfl ?_
    · cases autorun
      all_goals simpa [Timed, Pending, newTask] using htimed
    · rw [hwaits]
      cases autorun
      all_goals simp [waitsFor, Pending, newTask]
    · rw [hrq]
      cases autorun with
      | true => exact h.rq.addTail hready hp
      | false => exact h.rqSame hready

/-- What `tick_list_insert` does when there is a time to wait. -/
theorem tickListInsert_eq (s : Kern) (task : ℕ) {time : ℕ} (h : 0 < time) :
    ∃ tickMatch l, l.Perm (task :: s.tickList) ∧ tickListInsert s task time =
      { s with
        tickList := l
        tasks := Function.update s.tasks task { s.tasks task with
          tickMatch := tickMatch, tickRemain := time, tickHead := true } } := by
  unfold tickListInsert
  rw [if_pos h]
  exact ⟨_, _, tickListPriInsert_perm _ task time _, rfl⟩

/-- A task that sleeps. -/
def sleepingTask (t : KTask) (ticks tickMatch : ℕ) : KTask :=
  { t with taskState := .sleep, tickMatch := tickMatch, tickRemain := ticks, tickHead := true }

/-- `krhino_task_sleep` changes nothing, or the running task goes from the ready list to the tick list. -/
theorem krhinoTaskSleep_cases {ticks : ℕ} {st : Option KStat} (hc : krhinoTaskSleep s ticks = some (st, s')) :
    s' = s ∨ ¬ 0 < s.intrptLevel ∧ ∃ tickMatch l rq, l.Perm (s.active :: s.tickList) ∧
      readyListRm s.rq s.active (s.tasks s.active).prio = some rq ∧
      s' = { s with
        rq := rq
        tickList := l
        tasks := Function.update s.tasks s.active (sleepingTask (s.tasks s.active) ticks tickMatch) } := by
  unfold krhinoTaskSleep at hc
  split_ifs at hc with hticks hintrpt hlock
  · cases hc
    exact .inl rfl
  · cases hc
    exact .inl rfl
  · cases hc
    exact .inl rfl
  · obtain ⟨s₁, hrm, heq⟩ := Option.map_eq_some_iff.1 hc
    cases heq
    obtain ⟨tickMatch, l, hl, hins⟩ := tickListInsert_eq
      (s.setTask s.active { s.tasks s.active with taskState := .sleep }) s.active
      (Nat.pos_of_ne_zero hticks)
    rw [setTask_active, hins] at hrm
    obtain ⟨rq, hrq, rfl⟩ := readyRm_cases hrm
    simp only [setTask_tasks, setTask_rq, setTask_tickList, Function.update_self,
      Function.update_idem] at hrq hl ⊢
    exact .inr ⟨hintrpt, tickMatch, l, rq, hl, hrq, rfl⟩

/-- `krhino_task_sleep` keeps the kernel right. -/
theorem krhinoTaskSleep_ok {ticks : ℕ} {st : Option KStat} (h : KernOk s del)
    (hrun : 0 < s.intrptLevel ∨ (s.tasks s.active).taskState = .rdy)
    (hc : krhinoTaskSleep s ticks = some (st, s')) : KernOk s' del := by
  obtain rfl | ⟨hintrpt, tickMatch, l, rq, hl, hrq, rfl⟩ := krhinoTaskSleep_cases hc
  · exact h
  · obtain ⟨hready, htimed, hwaits⟩ := ready_facts (hrun.resolve_left hintrpt)
    have hok := h.tasks s.active
    refine h.update (w := none) (sleepingTask (s.tasks s.active) ticks tickMatch)
      rfl ?_ rfl (iff_true_intro (.inl rfl)) rfl (h.rq.rm hready hrq)
      (h.tick.insert htimed hl) ?_ h.dead
    · exact ⟨hok.prio_lt, hok.bPrio_lt, by simp [sleepingTask, Timed], by simp [sleepingTask, Suspended],
        by simp [sleepingTask, Pending]⟩
    · exact h.blkSame hwaits

/-- A task with its new object and timeout, in the tick list if the timeout is finite. -/
theorem pendTick_eq (s : Kern) (task obj : ℕ) {timeout : ℕ} (htime : 0 < timeout) :
    ∃ tickMatch tickRemain l,
      (if timeout ≠ waitForever then l.Perm (task :: s.tickList) else l = s.tickList) ∧
      (let s₁ := s.setTask task { s.tasks task with blkObj := some obj, waitTicks := timeout }
       if timeout ≠ waitForever then tickListInsert s₁ task timeout else s₁) =
      { s with
        tickList := l
        tasks := Function.update s.tasks task { s.tasks task with
          blkObj := some obj, waitTicks := timeout, tickMatch := tickMatch
          tickRemain := tickRemain
          tickHead := if timeout ≠ waitForever then true else (s.tasks task).tickHead } } := by
  by_cases hforever : timeout ≠ waitForever
  · obtain ⟨tickMatch, l, hl, hins⟩ := tickListInsert_eq
      (s.setTask task { s.tasks task with blkObj := some obj, waitTicks := timeout }) task htime
    refine ⟨tickMatch, timeout, l, ?_, ?_⟩
    · rw [if_pos hforever]
      exact hl
    · simp only [if_pos hforever, hins]
      simp [Kern.setTask]
  · refine ⟨(s.tasks task).tickMatch, (s.tasks task).tickRemain, s.tickList, ?_, ?_⟩
    · rw [if_neg hforever]
    · simp only [if_neg hforever]
      rfl

/-- `pend_to_blk_obj` adds the task to the list of the object. -/
theorem blkListAdd_eq (s : Kern) (obj task : ℕ) :
    ∃ l, l.Perm (task :: (s.objs obj).blkList) ∧
      ((s.objs obj).blkPolicy = .pri →
        l = pendListAdd (fun t => (s.tasks t).prio) task (s.objs obj).blkList) ∧
      blkListAdd s obj task = s.setObj obj { s.objs obj with blkList := l } := by
  unfold blkListAdd
  refine ⟨_, ?_, fun hpol => by simp [hpol], rfl⟩
  split
  · exact List.perm_append_comm
  · exact pendListAdd_perm _ task _

/-- A task that waits for an object. -/
def pendedTask (t : KTask) (obj timeout tickMatch tickRemain : ℕ) : KTask :=
  { t with
    taskState := .pend, blkObj := some obj, waitTicks := timeout, tickMatch := tickMatch
    tickRemain := tickRemain, tickHead := if timeout ≠ waitForever then true else t.tickHead }

/-- What `pend_to_blk_obj` changes: the task, the run queue, the tick list and the list
of the object. -/
theorem pendToBlkObj_eq {obj timeout : ℕ} (htime : 0 < timeout)
    (hc : pendToBlkObj s obj task timeout = some s') :
    ∃ tickMatch tickRemain l rq bl,
      (if timeout ≠ waitForever then l.Perm (task :: s.tickList) else l = s.tickList) ∧
      readyListRm s.rq task (s.tasks task).prio = some rq ∧
      bl.Perm (task :: (s.objs obj).blkList) ∧
      ((s.objs obj).blkPolicy = .pri →
        bl = pendListAdd (fun t => (s.tasks t).prio) task (s.objs obj).blkList) ∧
      s' = Kern.setObj { s with
        rq := rq
        tickList := l
        tasks := Function.update s.tasks task
          (pendedTask (s.tasks task) obj timeout tickMatch tickRemain) }
        obj { s.objs obj with blkList := bl } := by
  obtain ⟨tickMatch, tickRemain, l, hl, heq⟩ := pendTick_eq s task obj htime
  unfold pendToBlkObj at hc
  simp only [heq] at hc
  split at hc
  case h_1 => cases hc
  case h_2 s₁ hrm =>
    cases hc
    obtain ⟨rq, hrq, rfl⟩ := readyRm_cases hrm
    simp only [Kern.setTask, Function.update_self, Function.update_idem] at hrq ⊢
    obtain ⟨bl, hbl, hpri, hadd⟩ := blkListAdd_eq { s with
      rq := rq
      tickList := l
      tasks := Function.update s.tasks task
        (pendedTask (s.tasks task) obj timeout tickMatch tickRemain) } obj task
    refine ⟨tickMatch, tickRemain, l, rq, bl, hl, hrq, hbl, fun hpol => ?_, hadd⟩
    rw [hpri hpol]
    congr 1
    funext t
    simp only [Function.update_apply]
    split
    case isTrue heq => rw [heq]; rfl
    case isFalse => rfl

/-- **The active task blocks** on an object. -/
theorem pendToBlkObj_ok {obj timeout : ℕ} (h : KernOk s del)
    (hrdy : (s.tasks task).taskState = .rdy) (htime : 0 < timeout)
    (hobj : (s.objs obj).objType ≠ .none) (hc : pendToBlkObj s obj task timeout = some s') :
    KernOk s' del := by
  obtain ⟨hready, htimed, hwaits⟩ := ready_facts hrdy
  obtain ⟨tickMatch, tickRemain, l, rq, bl, hl, hrq, hbl, -, rfl⟩ := pendToBlkObj_eq htime hc
  have hok := h.tasks task
  have hhead : (s.tasks task).tickHead = false := by
    simpa [htimed] using hok.tickHead_iff
  refine h.update (b := timeout ≠ waitForever) _ rfl ?_ rfl ?_ rfl (h.rq.rm hready hrq) ?_
    (h.blk.insert hwaits hbl) ?_
  · refine ⟨hok.prio_lt, hok.bPrio_lt, ?_, by simp [pendedTask, Suspended], fun _ => ⟨obj, rfl⟩⟩
    simp [pendedTask, Timed, Pending, hhead]
  · simp [pendedTask, Timed, Pending]
  · by_cases hforever : timeout ≠ waitForever
    · rw [if_pos hforever] at hl
      show TickListOk l (Function.update _ task (timeout ≠ waitForever))
      rw [eq_true hforever]
      exact h.tick.insert htimed hl
    · rw [if_neg hforever] at hl
      show TickListOk l (Function.update _ task (timeout ≠ waitForever))
      rw [hl]
      exact h.tickSame (by simp [htimed, hforever])
  · intro o ho hne
    simp only [setObj_objs, Function.update_apply] at ho ⊢
    split at ho
    case isTrue heq => exact absurd ho hobj
    case isFalse hneq =>
      rw [if_neg hneq]
      exact h.dead o ho hne

/-- The state a task has without its suspension. -/
def baseState : TaskStat → TaskStat
  | .suspended => .rdy
  | .pendSuspended => .pend
  | .sleepSuspended => .sleep
  | st => st

instance (t : KTask) : Decidable (Suspended t) := inferInstanceAs (Decidable (_ ∨ _ ∨ _))

/-- How often a task is suspended. -/
def depth (t : KTask) : ℕ := if Suspended t then t.suspendCount else 0

/-- A task's state in the new depth of its suspension. -/
structure Resuspended (t t' : KTask) : Prop where
  base : baseState t'.taskState = baseState t.taskState
  prio : t'.prio = t.prio
  bPrio : t'.bPrio = t.bPrio
  mutexList : t'.mutexList = t.mutexList
  blkObj : t'.blkObj = t.blkObj
  tickHead : t'.tickHead = t.tickHead
  waitTicks : t'.waitTicks = t.waitTicks
  flag : t'.mmAllocFlag = t.mmAllocFlag

/-- What a state waits for is what its base waits for. -/
theorem waiting_of_base {a b : TaskStat} (h : baseState b = baseState a) :
    (b = .pend ∨ b = .pendSuspended ↔ a = .pend ∨ a = .pendSuspended) ∧
      (b = .sleep ∨ b = .sleepSuspended ↔ a = .sleep ∨ a = .sleepSuspended) := by
  cases a <;> cases b <;> simp_all [baseState]

/-- Suspension concerns the ready lists alone. -/
theorem Resuspended.lists {t t' : KTask} (h : Resuspended t t') :
    (Pending t' ↔ Pending t) ∧ (Timed t' ↔ Timed t) ∧ waitsFor t' = waitsFor t := by
  obtain ⟨hpend, hsleep⟩ := waiting_of_base h.base
  have hp : Pending t' ↔ Pending t := hpend
  refine ⟨hp, ?_, ?_⟩
  · unfold Timed
    rw [← or_assoc, ← or_assoc, hsleep, hp, h.waitTicks]
  · unfold waitsFor
    simp only [hp, h.blkObj]

/-- A task that is suspended once more or once less stays right if its depth does. -/
theorem Resuspended.taskOk {t t' : KTask} (h : Resuspended t t') (hok : TaskOk t)
    (hcount : Suspended t' → 1 ≤ t'.suspendCount ∧ t'.suspendCount < 2 ^ 8) : TaskOk t' where
  prio_lt := by
    rw [h.prio]
    exact hok.prio_lt
  bPrio_lt := by
    rw [h.bPrio]
    exact hok.bPrio_lt
  tickHead_iff := by
    rw [h.tickHead, h.lists.2.1]
    exact hok.tickHead_iff
  count := hcount
  blkObj := by
    intro hp
    rw [h.blkObj]
    exact hok.blkObj (h.lists.1.1 hp)

/-- **What a suspension does**: nothing, unless it succeeds; then the task is suspended once more,
and it leaves the ready list if it was not suspended before. -/
theorem krhinoTaskSuspend_cases {st : KStat} (h : TaskOk (s.tasks task))
    (hc : krhinoTaskSuspend s task = some (st, s')) :
    (st ≠ .success ∧ s' = s) ∨ (st = .success ∧ ∃ t' rq, s' = { s with
        rq := rq, tasks := Function.update s.tasks task t' } ∧
      Resuspended (s.tasks task) t' ∧ Suspended t' ∧
      t'.suspendCount = depth (s.tasks task) + 1 ∧ t'.suspendCount < 2 ^ 8 ∧
      if (s.tasks task).taskState = .rdy then
        readyListRm s.rq task (s.tasks task).prio = some rq else rq = s.rq) := by
  unfold krhinoTaskSuspend taskSuspend at hc
  split at hc
  case isTrue =>
    cases hc
    exact .inl ⟨by decide, rfl⟩
  case isFalse =>
    split at hc
    case isTrue =>
      cases hc
      exact .inl ⟨by decide, rfl⟩
    case isFalse =>
      simp only at hc
      split at hc
      case h_1 hs =>
        obtain ⟨s₁, hrm, heq⟩ := Option.map_eq_some_iff.1 hc
        cases heq
        obtain ⟨rq, hrq, rfl⟩ := readyRm_cases hrm
        rw [setTask_tasks, Function.update_self] at hrq
        refine .inr ⟨rfl, { s.tasks task with suspendCount := 1, taskState := .suspended }, rq, rfl,
          ⟨by rw [hs]; rfl, rfl, rfl, rfl, rfl, rfl, rfl, rfl⟩, .inl rfl, ?_, by norm_num, ?_⟩
        · simp [depth, Suspended, hs]
        · rw [if_pos hs]
          exact hrq
      case h_2 hs =>
        cases hc
        refine .inr ⟨rfl, { s.tasks task with suspendCount := 1, taskState := .sleepSuspended },
          s.rq, rfl, ⟨by rw [hs]; rfl, rfl, rfl, rfl, rfl, rfl, rfl, rfl⟩, .inr (.inr rfl), ?_,
          by norm_num, ?_⟩
        · simp [depth, Suspended, hs]
        · simp [hs]
      case h_3 hs =>
        cases hc
        refine .inr ⟨rfl, { s.tasks task with suspendCount := 1, taskState := .pendSuspended },
          s.rq, rfl, ⟨by rw [hs]; rfl, rfl, rfl, rfl, rfl, rfl, rfl, rfl⟩, .inr (.inl rfl), ?_,
          by norm_num, ?_⟩
        · simp [depth, Suspended, hs]
        · simp [hs]
      case h_4 =>
        cases hc
        exact .inl ⟨by decide, rfl⟩
      case h_5 =>
        cases hc
        exact .inl ⟨by decide, rfl⟩
      case h_6 h1 h2 h3 h4 h5 =>
        have hsusp : Suspended (s.tasks task) := by
          unfold Suspended
          cases hs : (s.tasks task).taskState <;> simp_all
        split at hc
        case isTrue =>
          cases hc
          exact .inl ⟨by decide, rfl⟩
        case isFalse hovf =>
          cases hc
          have hcount := h.count hsusp
          refine .inr ⟨rfl, { s.tasks task with
            suspendCount := (s.tasks task).suspendCount + 1 }, s.rq, rfl,
            ⟨rfl, rfl, rfl, rfl, rfl, rfl, rfl, rfl⟩, hsusp, ?_, ?_, ?_⟩
          · simp [depth, hsusp]
          · simp only
            omega
          · rw [if_neg h1]

/-- **What a resumption does**: nothing, unless the task is suspended; then it is suspended once
less, and it enters a ready list if it becomes ready. -/
theorem krhinoTaskResume_cases {st : KStat} (h : TaskOk (s.tasks task))
    (hc : krhinoTaskResume s task = some (st, s')) :
    (¬ Suspended (s.tasks task) ∧ s' = s) ∨ (Suspended (s.tasks task) ∧
      ∃ t' rq, s' = { s with rq := rq, tasks := Function.update s.tasks task t' } ∧
      Resuspended (s.tasks task) t' ∧ t'.suspendCount + 1 = (s.tasks task).suspendCount ∧
      (Suspended t' ↔ t'.suspendCount ≠ 0) ∧
      if t'.taskState = .rdy then
        ∃ activePrio, rq = readyListAdd s.rq task (s.tasks task).prio activePrio
      else rq = s.rq) := by
  unfold krhinoTaskResume at hc
  simp only at hc
  generalize hcount : ((s.tasks task).suspendCount + (2 ^ 8 - 1)) % 2 ^ 8 = c at hc
  have hwrap : Suspended (s.tasks task) → c + 1 = (s.tasks task).suspendCount := by
    intro hsusp
    have := h.count hsusp
    omega
  split at hc
  case h_1 hs =>
    have hsusp : Suspended (s.tasks task) := .inl hs
    split at hc
    case isTrue hzero =>
      cases hc
      refine .inr ⟨hsusp, { s.tasks task with suspendCount := c, taskState := .rdy }, _,
        rfl, ⟨by rw [hs]; rfl, rfl, rfl, rfl, rfl, rfl, rfl, rfl⟩, hwrap hsusp, ?_, ?_⟩
      · simp [Suspended, hzero]
      · rw [if_pos rfl]
        exact ⟨_, by simp [Kern.setTask]; rfl⟩
    case isFalse hpos =>
      cases hc
      refine .inr ⟨hsusp, { s.tasks task with suspendCount := c }, s.rq,
        rfl, ⟨rfl, rfl, rfl, rfl, rfl, rfl, rfl, rfl⟩, hwrap hsusp, ?_, ?_⟩
      · simp [Suspended, hs, hpos]
      · simp [hs]
  case h_2 hs =>
    have hsusp : Suspended (s.tasks task) := .inr (.inr hs)
    cases hc
    refine .inr ⟨hsusp, _, s.rq, rfl, ⟨?_, rfl, rfl, rfl, rfl, rfl, rfl, rfl⟩, hwrap hsusp, ?_, ?_⟩
    · rw [hs]
      split
      · rfl
      · rfl
    · simp only [Suspended]
      split <;> simp [*]
    · simp only
      split <;> simp
  case h_3 hs =>
    have hsusp : Suspended (s.tasks task) := .inr (.inl hs)
    cases hc
    refine .inr ⟨hsusp, _, s.rq, rfl, ⟨?_, rfl, rfl, rfl, rfl, rfl, rfl, rfl⟩, hwrap hsusp, ?_, ?_⟩
    · rw [hs]
      split
      · rfl
      · rfl
    · simp only [Suspended]
      split <;> simp [*]
    · simp only
      split <;> simp
  case h_4 hs =>
    cases hc
    exact .inl ⟨by simp [Suspended, hs], rfl⟩
  case h_5 hs =>
    cases hc
    exact .inl ⟨by simp [Suspended, hs], rfl⟩
  case h_6 h1 h2 h3 h4 h5 =>
    cases hc
    refine .inl ⟨?_, rfl⟩
    rintro (hs | hs | hs)
    · exact h1 hs
    · exact h3 hs
    · exact h2 hs

/-- `krhino_task_suspend` keeps the kernel right. -/
theorem krhinoTaskSuspend_ok {st : KStat} (h : KernOk s del)
    (hc : krhinoTaskSuspend s task = some (st, s')) : KernOk s' del := by
  obtain ⟨-, rfl⟩ | ⟨-, t', rq, rfl, hre, hsusp, hdepth, hlt, hrq⟩ :=
    krhinoTaskSuspend_cases (h.tasks task) hc
  · exact h
  · have hready : readyPrio t' = none := by
      obtain hs | hs | hs := hsusp
      all_goals simp [readyPrio, hs]
    refine h.updateReady t' rfl rfl rfl (hre.taskOk (h.tasks task) fun _ => ⟨by omega, hlt⟩)
      hre.lists.2.1 hre.lists.2.2 hready ?_
    split at hrq
    case isTrue hs => exact h.rq.rm (ready_facts hs).1 hrq
    case isFalse hs =>
      subst hrq
      exact h.rqSame (by simp [readyPrio, hs])

/-- `krhino_task_resume` keeps the kernel right. -/
theorem krhinoTaskResume_ok {st : KStat} (h : KernOk s del)
    (hc : krhinoTaskResume s task = some (st, s')) : KernOk s' del := by
  obtain ⟨-, rfl⟩ | ⟨hsusp, t', rq, rfl, hre, hcount, hiff, hrq⟩ :=
    krhinoTaskResume_cases (h.tasks task) hc
  · exact h
  · have hready : readyPrio (s.tasks task) = none := by
      obtain hs | hs | hs := hsusp
      all_goals simp [readyPrio, hs]
    have hlt := ((h.tasks task).count hsusp).2
    have hok : TaskOk t' := by
      apply hre.taskOk (h.tasks task)
      intro hsusp'
      have := hiff.1 hsusp'
      omega
    refine h.updateReady t' rfl rfl rfl hok hre.lists.2.1 hre.lists.2.2 rfl ?_
    split at hrq
    case isTrue hs =>
      obtain ⟨activePrio, rfl⟩ := hrq
      rw [(ready_facts hs).1, hre.prio]
      exact h.rq.add hready (h.tasks task).prio_lt activePrio
    case isFalse hs =>
      subst hrq
      exact h.rqSame (by rw [hready]; simp [readyPrio, hs])

end TaskCalls

end GenieSdk.Analysis.Rhino
