import GenieSdk.Analysis.TaskStates

/-!
# The kernel calls

For each call of `k_mutex.c`, `k_task.c` and `k_tick.c` that concerns mutexes or the end of a
wait, the states it can lead to, and that it keeps `KernOk`. The priorities and the owners of
mutexes are followed elsewhere, by the same lists of cases.
-/

set_option autoImplicit false

namespace GenieSdk.Analysis.Rhino

open GenieSdk.Model.Rhino
open GenieSdk.Model (AllocFlag BlkState KStat)

section MutexCalls

variable {s s' : Kern} {del : Option ℕ} {task mutex obj : ℕ}

/-- The kernel stays right when a mutex is handed to a task. -/
theorem mutexHandTo_ok (h : KernOk s del) : KernOk (mutexHandTo s mutex task) del := by
  unfold mutexHandTo
  apply KernOk.record
  have hobj := h.setObj mutex { s.objs mutex with
    mutexTask := some task, mutexList := (s.tasks task).mutexList } (List.Perm.refl _)
    (h.dead mutex)
  have hok := h.tasks task
  exact hobj.setTask ⟨hok.prio_lt, hok.bPrio_lt, hok.tickHead_iff, hok.count, hok.blkObj⟩ rfl
    Iff.rfl rfl

/-- **What `krhino_mutex_lock` does**: the active task gets the mutex, or owns it once more, or
blocks after its owner got at least its priority. -/
theorem krhinoMutexLock_cases {fuel ticks : ℕ} {st : Option KStat}
    (hc : krhinoMutexLock fuel s mutex ticks = some (st, s')) :
    s' = s ∨ (s.intrptLevel = 0 ∧ (s.objs mutex).objType = .mutex ∧
      (((s.objs mutex).mutexTask = none ∧
        s' = (mutexHandTo s mutex s.active).setObj mutex
          { (mutexHandTo s mutex s.active).objs mutex with ownerNested := 1 }) ∨
      ((s.objs mutex).mutexTask = some s.active ∧ (s.objs mutex).ownerNested ≠ 2 ^ 32 - 1 ∧
        s' = (s.setObj mutex { s.objs mutex with
          ownerNested := (s.objs mutex).ownerNested + 1 }).record (.lock s.active mutex)) ∨
      ∃ owner s₁, (s.objs mutex).mutexTask = some owner ∧ s.active ≠ owner ∧ 0 < ticks ∧
        (((s.tasks s.active).prio < (s.tasks owner).prio ∧
          PriChange s owner (s.tasks s.active).prio s₁) ∨
          ((s.tasks owner).prio ≤ (s.tasks s.active).prio ∧ s₁ = s)) ∧
        pendToBlkObj s₁ mutex s₁.active ticks = some s')) := by
  unfold krhinoMutexLock at hc
  split at hc
  case isTrue =>
    cases hc
    exact .inl rfl
  case isFalse hintrpt =>
    split at hc
    case isTrue =>
      cases hc
      exact .inl rfl
    case isFalse htype =>
      have hlevel : s.intrptLevel = 0 := Nat.eq_zero_of_not_pos hintrpt
      have hmutex : (s.objs mutex).objType = .mutex := not_not.1 htype
      split at hc
      case h_1 hfree =>
        cases hc
        exact .inr ⟨hlevel, hmutex, .inl ⟨hfree, rfl⟩⟩
      case h_2 owner howner =>
        split_ifs at hc with hown hovf hticks hlock hraise
        · cases hc
          rw [← hown] at howner
          exact .inr ⟨hlevel, hmutex, .inr (.inl ⟨howner, hovf, rfl⟩)⟩
        · cases hc
          exact .inl rfl
        · cases hc
          exact .inl rfl
        · simp only at hc
          split at hc
          case h_1 => cases hc
          case h_2 s₁ hpri =>
            obtain ⟨s₂, hpend, heq⟩ := Option.map_eq_some_iff.1 hc
            cases heq
            exact .inr ⟨hlevel, hmutex, .inr (.inr ⟨owner, s₁, howner, hown,
              Nat.pos_of_ne_zero hticks, .inl ⟨hraise, taskPriChange_sound hpri⟩, hpend⟩)⟩
        · obtain ⟨s₂, hpend, heq⟩ := Option.map_eq_some_iff.1 hc
          cases heq
          exact .inr ⟨hlevel, hmutex, .inr (.inr ⟨owner, s, howner, hown,
            Nat.pos_of_ne_zero hticks, .inr ⟨not_lt.1 hraise, rfl⟩, hpend⟩)⟩

/-- The mutex with one lock undone. -/
def undoLock (s : Kern) (mutex : ℕ) : Kern :=
  (s.setObj mutex { s.objs mutex with
    ownerNested := ((s.objs mutex).ownerNested + (2 ^ 32 - 1)) % 2 ^ 32 }).record
      (.unlock s.active mutex)

/-- **What `krhino_mutex_unlock` does**: one lock is undone; when it was the last one, the mutex is
released and goes to the first waiter, if there is one. -/
theorem krhinoMutexUnlock_cases {fuel : ℕ} {st : KStat}
    (hc : krhinoMutexUnlock fuel s mutex = some (st, s')) :
    s' = s ∨ (s.intrptLevel = 0 ∧ (s.objs mutex).objType = .mutex ∧
      (s.objs mutex).mutexTask = some s.active ∧
      ((0 < ((undoLock s mutex).objs mutex).ownerNested ∧ s' = undoLock s mutex) ∨
      (((undoLock s mutex).objs mutex).ownerNested = 0 ∧
        ∃ s₁, mutexRelease fuel (undoLock s mutex) s.active (some mutex) = some s₁ ∧
        (((s₁.objs mutex).blkList = [] ∧
          s' = s₁.setObj mutex { s₁.objs mutex with mutexTask := none }) ∨
        ∃ task rest s₂, (s₁.objs mutex).blkList = task :: rest ∧
          pendTaskWakeup s₁ task = some s₂ ∧
          s' = (mutexHandTo s₂ mutex task).setObj mutex
            { (mutexHandTo s₂ mutex task).objs mutex with ownerNested := 1 })))) := by
  unfold krhinoMutexUnlock at hc
  split at hc
  case isTrue =>
    cases hc
    exact .inl rfl
  case isFalse hintrpt =>
    split at hc
    case isTrue =>
      cases hc
      exact .inl rfl
    case isFalse htype =>
      split at hc
      case isTrue =>
        cases hc
        exact .inl rfl
      case isFalse howner =>
        refine .inr ⟨Nat.eq_zero_of_not_pos hintrpt, not_not.1 htype, not_not.1 howner, ?_⟩
        change (if 0 < ((undoLock s mutex).objs mutex).ownerNested then _ else _) = _ at hc
        split at hc
        case isTrue hpos =>
          cases hc
          exact .inl ⟨hpos, rfl⟩
        case isFalse hzero =>
          refine .inr ⟨Nat.eq_zero_of_not_pos hzero, ?_⟩
          split at hc
          case h_1 => cases hc
          case h_2 s₁ hrel =>
            refine ⟨s₁, hrel, ?_⟩
            split at hc
            case h_1 hnil =>
              cases hc
              exact .inl ⟨hnil, rfl⟩
            case h_2 first rest hlist =>
              split at hc
              case h_1 => cases hc
              case h_2 s₂ hwake =>
                cases hc
                exact .inr ⟨first, rest, s₂, hlist, hwake, rfl⟩

/-- The lists do not say who owns a mutex, or how often. -/
theorem KernOk.setNested (h : KernOk s del) (mutex nested : ℕ) :
    KernOk (s.setObj mutex { s.objs mutex with ownerNested := nested }) del :=
  h.setObj mutex _ (List.Perm.refl _) (h.dead mutex)

/-- And when the owner of a mutex is set. -/
theorem KernOk.setOwner (h : KernOk s del) (mutex : ℕ) (owner : Option ℕ) :
    KernOk (s.setObj mutex { s.objs mutex with mutexTask := owner }) del :=
  h.setObj mutex _ (List.Perm.refl _) (h.dead mutex)

/-- And when a lock is undone. -/
theorem undoLock_ok (h : KernOk s del) : KernOk (undoLock s mutex) del :=
  (h.setNested mutex _).record _

/-- The active task can block after its priority was handed on. -/
theorem krhinoMutexLock_ok {fuel ticks : ℕ} {st : Option KStat} (h : KernOk s del)
    (hrun : 0 < s.intrptLevel ∨ (s.tasks s.active).taskState = .rdy)
    (hc : krhinoMutexLock fuel s mutex ticks = some (st, s')) : KernOk s' del := by
  obtain rfl | ⟨hlevel, htype, ⟨-, rfl⟩ | ⟨-, -, rfl⟩ | ⟨owner, s₁, -, -, hticks, hraise, hpend⟩⟩ :=
    krhinoMutexLock_cases hc
  · exact h
  · exact (mutexHandTo_ok h).setNested mutex 1
  · exact (h.setNested mutex _).record _
  · have hrdy : (s.tasks s.active).taskState = .rdy := hrun.resolve_left (by omega)
    have hkeep : KernOk s₁ del ∧ Frame s s₁ := by
      obtain ⟨-, hchange⟩ | ⟨-, rfl⟩ := hraise
      · have hp := (h.tasks s.active).prio_lt
        exact ⟨hchange.ok h hp, (hchange.frame h hp).1⟩
      · exact ⟨h, Frame.refl _⟩
    obtain ⟨h₁, hframe⟩ := hkeep
    apply pendToBlkObj_ok h₁ _ hticks _ hpend
    · rw [hframe.active, hframe.task]
      exact hrdy
    · rw [hframe.obj]
      simp [htype]

/-- `krhino_mutex_unlock` keeps the kernel right. -/
theorem krhinoMutexUnlock_ok {fuel : ℕ} {st : KStat} (h : KernOk s del)
    (hc : krhinoMutexUnlock fuel s mutex = some (st, s')) : KernOk s' del := by
  obtain rfl | ⟨-, -, -, ⟨-, rfl⟩ | ⟨-, s₁, hrel, ⟨-, rfl⟩ | ⟨task, rest, s₂, -, hwake, rfl⟩⟩⟩ :=
    krhinoMutexUnlock_cases hc
  · exact h
  · exact undoLock_ok h
  · obtain ⟨h₁, -⟩ := mutexRelease_ok (undoLock_ok h) hrel
    exact h₁.setOwner mutex none
  · obtain ⟨h₁, -⟩ := mutexRelease_ok (undoLock_ok h) hrel
    have h₂ := pendTaskEnd_ok h₁ hwake
    exact (mutexHandTo_ok h₂).setNested mutex 1

/-- All tasks that wait for an object are made ready, and the kernel stays right. -/
theorem pendTaskRmAll_ok {fuel : ℕ} (h : KernOk s del) (hc : pendTaskRmAll fuel s obj = some s') :
    KernOk s' del ∧ (s'.objs obj).blkList = [] := by
  induction fuel generalizing s with
  | zero => cases hc
  | succ fuel ih =>
    unfold pendTaskRmAll at hc
    split at hc
    case h_1 hnil =>
      cases hc
      exact ⟨h, hnil⟩
    case h_2 first rest _ =>
      split at hc
      case h_1 => cases hc
      case h_2 s₁ hrm => exact ih (pendTaskEnd_ok h hrm) hc

/-- An object whose list is empty can be deleted, and its deletion can end. -/
theorem KernOk.beginDel (h : KernOk s none) (obj : ℕ) :
    KernOk (s.setObj obj { s.objs obj with objType := .none }) (some obj) where
  rq := h.rq
  tick := h.tick
  blk := h.blk.set (List.Perm.refl _)
  tasks := h.tasks
  dead o ho hne := by
    have hobj : o ≠ obj := fun heq => hne (by rw [heq])
    rw [setObj_objs, Function.update_of_ne hobj] at ho ⊢
    exact h.dead o ho (by simp)

/-- An object without waiting tasks can be deleted. -/
theorem KernOk.endDel (h : KernOk s (some obj)) (hnil : (s.objs obj).blkList = []) :
    KernOk s none where
  rq := h.rq
  tick := h.tick
  blk := h.blk
  tasks := h.tasks
  dead o ho _ := by
    by_cases hobj : o = obj
    · rw [hobj]
      exact hnil
    · exact h.dead o ho (by simpa using hobj)

/-- A mutex that is no mutex any more. -/
def clearType (s : Kern) (mutex : ℕ) : Kern :=
  (s.setObj mutex { s.objs mutex with objType := .none }).record (.mutexDel mutex)

/-- **What the deletion of a mutex does**: its owner releases it, then its waiters are woken. -/
theorem mutexDel_cases {fuel : ℕ} {flag : AllocFlag} {st : KStat}
    (hc : mutexDel fuel s mutex flag = some (st, s')) :
    s' = s ∨ ((s.objs mutex).objType = .mutex ∧
      ∃ s₁, (((s.objs mutex).mutexTask = none ∧ s₁ = clearType s mutex) ∨
        ∃ owner, (s.objs mutex).mutexTask = some owner ∧
          mutexRelease fuel (clearType s mutex) owner (some mutex) = some s₁) ∧
        pendTaskRmAll fuel s₁ mutex = some s') := by
  unfold mutexDel at hc
  split at hc
  case isTrue =>
    cases hc
    exact .inl rfl
  case isFalse =>
    split at hc
    case isTrue =>
      cases hc
      exact .inl rfl
    case isFalse htype =>
      split at hc
      case isTrue =>
        cases hc
        exact .inl rfl
      case isFalse =>
        refine .inr ⟨not_not.1 htype, ?_⟩
        simp only [record_objs, setObj_objs, Function.update_self] at hc
        split at hc
        case h_1 => cases hc
        case h_2 s₁ hrel =>
          obtain ⟨s₂, hall, heq⟩ := Option.map_eq_some_iff.1 hc
          cases heq
          refine ⟨s₁, ?_, hall⟩
          split at hrel
          case h_1 hfree =>
            cases hrel
            exact .inl ⟨hfree, rfl⟩
          case h_2 owner howner => exact .inr ⟨owner, howner, hrel⟩

/-- `mutex_del` keeps the kernel right. -/
theorem mutexDel_ok {fuel : ℕ} {flag : AllocFlag} {st : KStat} (h : KernOk s none)
    (hc : mutexDel fuel s mutex flag = some (st, s')) : KernOk s' none := by
  obtain rfl | ⟨-, s₁, hrel, hall⟩ := mutexDel_cases hc
  · exact h
  · have h₀ : KernOk (clearType s mutex) (some mutex) := (h.beginDel mutex).record _
    have h₁ : KernOk s₁ (some mutex) := by
      obtain ⟨-, rfl⟩ | ⟨owner, -, hrel⟩ := hrel
      · exact h₀
      · exact (mutexRelease_ok h₀ hrel).1
    obtain ⟨h₂, hnil⟩ := pendTaskRmAll_ok h₁ hall
    exact h₂.endDel hnil

/-- A mutex is created where no object is. -/
theorem mutexCreate_cases {flag : AllocFlag} (hc : mutexCreate s mutex flag = some s') :
    (s.objs mutex).objType = .none ∧ s' = s.setObj mutex { s.objs mutex with
      objType := .mutex, blkPolicy := .pri, blkList := [], mutexTask := none, mutexList := none
      mmAllocFlag := flag } := by
  unfold mutexCreate at hc
  split at hc
  case isTrue => cases hc
  case isFalse hfree =>
    cases hc
    exact ⟨not_not.1 hfree, rfl⟩

/-- `mutex_create` keeps the kernel right. -/
theorem mutexCreate_ok {flag : AllocFlag} (h : KernOk s none)
    (hc : mutexCreate s mutex flag = some s') : KernOk s' none := by
  obtain ⟨hfree, rfl⟩ := mutexCreate_cases hc
  apply h.setObj mutex
  · rw [h.dead mutex hfree (by simp)]
  · intro hnone
    cases hnone

end MutexCalls

section Waits

variable {s s' : Kern} {del : Option ℕ} {task obj fuel : ℕ}

/-- **A wait for no object ends**: the task leaves the tick list if it is in it, and enters a ready
list if it becomes ready. -/
theorem KernOk.wake (h : KernOk s del) (t' : KTask) (hpend : ¬ Pending (s.tasks task))
    (hnrdy : (s.tasks task).taskState ≠ .rdy)
    (htasks : s'.tasks = Function.update s.tasks task t')
    (htick : s'.tickList = if (s.tasks task).tickHead then s.tickList.erase task else s.tickList)
    (hobjs : s'.objs = s.objs) (hprio : t'.prio = (s.tasks task).prio) (hok : TaskOk t')
    (hstate : (t'.taskState = .rdy ∧
        ∃ activePrio, s'.rq = readyListAdd s.rq task (s.tasks task).prio activePrio) ∨
      ((t'.taskState = .deleted ∨ t'.taskState = .suspended) ∧ s'.rq = s.rq)) :
    KernOk s' del := by
  have hready : readyPrio (s.tasks task) = none := by simp [readyPrio, hnrdy]
  have hnot : waitsFor t' = none ∧ ¬ Timed t' := by
    obtain ⟨hs, -⟩ | ⟨hs | hs, -⟩ := hstate
    all_goals simp [waitsFor, Timed, Pending, hs]
  refine h.update t' htasks hok rfl (iff_false_intro hnot.2) hnot.1 ?_ ?_ ?_ ?_
  · obtain ⟨hs, activePrio, hrq⟩ | ⟨hs, hrq⟩ := hstate
    · rw [hrq, (ready_facts hs).1, hprio]
      exact h.rq.add hready (h.tasks task).prio_lt activePrio
    · have hr : readyPrio t' = none := by
        obtain hs | hs := hs
        all_goals simp [readyPrio, hs]
      rw [hrq, hr]
      exact h.rqSame hready
  · rw [htick]
    exact h.tickErase task
  · rw [hobjs]
    exact h.blkSame (by simp [waitsFor, hpend])
  · rw [hobjs]
    exact h.dead

/-- What the loop of `mutex_pri_limit` returns is a priority. -/
theorem mutexPriLimitLoop_lt {m : Option ℕ} {pri highPri p : ℕ} (h : KernOk s del)
    (hpri : pri < priMax) (hhigh : highPri < priMax)
    (hc : mutexPriLimitLoop s fuel m pri highPri = some p) : p < priMax := by
  induction fuel generalizing m pri highPri with
  | zero => cases hc
  | succ fuel ih =>
    cases m with
    | none =>
      cases hc
      exact hhigh
    | some mutex =>
      have hfirst : firstBlkPrio s mutex pri < priMax := firstBlkPrio_lt h hpri
      unfold mutexPriLimitLoop at hc
      refine ih hfirst ?_ hc
      split
      · exact hfirst
      · exact hhigh

/-- **What `krhino_task_pri_change` does.** -/
theorem krhinoTaskPriChange_cases {pri : ℕ} {st : KStat}
    (hc : krhinoTaskPriChange fuel s task pri = some (st, s')) :
    s' = s ∨ ((s.tasks task).taskState ≠ .deleted ∧ pri < idlePri ∧
      ∃ priLimit, mutexPriLimit fuel s task pri = some priLimit ∧
        PriChange (s.setTask task { s.tasks task with bPrio := pri }) task priLimit s') := by
  unfold krhinoTaskPriChange at hc
  split at hc
  case isTrue =>
    cases hc
    exact .inl rfl
  case isFalse =>
    split at hc
    case isTrue =>
      cases hc
      exact .inl rfl
    case isFalse hpri =>
      split at hc
      case isTrue =>
        cases hc
        exact .inl rfl
      case isFalse hdel =>
        split at hc
        case isTrue =>
          cases hc
          exact .inl rfl
        case isFalse =>
          split at hc
          case h_1 => cases hc
          case h_2 priLimit hlimit =>
            obtain ⟨s₁, hchange, heq⟩ := Option.map_eq_some_iff.1 hc
            cases heq
            exact .inr ⟨hdel, not_le.1 hpri, priLimit, hlimit, taskPriChange_sound hchange⟩

/-- The base priority of a task is written. -/
theorem KernOk.setBPrio {pri : ℕ} (h : KernOk s del) (hp : pri < priMax) :
    KernOk (s.setTask task { s.tasks task with bPrio := pri }) del := by
  have hok := h.tasks task
  exact h.setTask ⟨hok.prio_lt, hp, hok.tickHead_iff, hok.count, hok.blkObj⟩ rfl Iff.rfl rfl

/-- `krhino_task_pri_change` keeps the kernel right. -/
theorem krhinoTaskPriChange_ok {pri : ℕ} {st : KStat} (h : KernOk s del)
    (hc : krhinoTaskPriChange fuel s task pri = some (st, s')) : KernOk s' del := by
  obtain rfl | ⟨-, hpri, priLimit, hlimit, hchange⟩ := krhinoTaskPriChange_cases hc
  · exact h
  · have hp : pri < priMax := hpri.trans_le (Nat.sub_le _ _)
    exact hchange.ok (h.setBPrio hp) (mutexPriLimitLoop_lt h hp hp hlimit)

/-- `task->blk_obj = NULL` for a task that waits for nothing. -/
theorem clearBlkObj_ok (h : KernOk s del) (hpend : ¬ Pending (s.tasks task)) :
    KernOk (clearBlkObj s task) del := by
  have hok := h.tasks task
  have hpend' : ¬ Pending { s.tasks task with blkObj := none } := hpend
  apply h.setTask
  · exact ⟨hok.prio_lt, hok.bPrio_lt, hok.tickHead_iff, hok.count, fun hp => absurd hp hpend'⟩
  · rfl
  · exact Iff.rfl
  · rw [waitsFor, waitsFor, if_neg hpend, if_neg hpend']

/-- A wait is cancelled, then the task forgets its object. -/
theorem pendCancel_clear_ok {st : TaskStat} {b : BlkState} (h : KernOk s del)
    (hpend : Pending (s.tasks task))
    (hst : st = .rdy ∨ (st = .suspended ∧ (s.tasks task).taskState = .pendSuspended))
    (hc : pendCancel fuel s task st b = some s') : KernOk (clearBlkObj s' task) del := by
  obtain ⟨h', hframe⟩ := pendCancel_ok h hpend (hst.imp_right .inr) hc
  apply clearBlkObj_ok h'
  rw [hframe.task, cancelled_tasks, Function.update_self]
  obtain rfl | ⟨rfl, -⟩ := hst
  · simp [Pending]
  · simp [Pending]

/-- `krhino_task_wait_abort` keeps the kernel right. -/
theorem krhinoTaskWaitAbort_ok {st : KStat} (h : KernOk s del)
    (hc : krhinoTaskWaitAbort fuel s task = some (st, s')) : KernOk s' del := by
  unfold krhinoTaskWaitAbort at hc
  split at hc
  case isTrue =>
    cases hc
    exact h
  case isFalse =>
    split at hc
    case h_1 =>
      cases hc
      exact h
    case h_2 hs =>
      cases hc
      have hhead : (s.tasks task).tickHead = false := by
        simpa [Timed, Pending, hs] using (h.tasks task).tickHead_iff
      refine h.wake { s.tasks task with taskState := .rdy } (by simp [Pending, hs]) (by simp [hs])
        rfl (by simp [hhead]) rfl rfl ((h.tasks task).idle rfl rfl (.inl rfl) hhead)
        (.inl ⟨rfl, _, by simp [Kern.readyAdd]; rfl⟩)
    case h_3 =>
      cases hc
      exact h
    case h_4 =>
      cases hc
      exact h
    case h_5 hs =>
      obtain ⟨s₁, hcancel, heq⟩ := Option.map_eq_some_iff.1 hc
      cases heq
      exact pendCancel_clear_ok h (.inl hs) (.inl rfl) hcancel
    case h_6 hs =>
      obtain ⟨s₁, hcancel, heq⟩ := Option.map_eq_some_iff.1 hc
      cases heq
      exact pendCancel_clear_ok h (.inr hs) (.inl rfl) hcancel
    case h_7 h1 h2 h3 h4 h5 h6 =>
      cases hc
      refine h.wake { s.tasks task with tickHead := false, taskState := .rdy, blkState := .abort }
        (by rintro (hs | hs); exacts [h5 hs, h6 hs]) h1 (by simp) ?_ (by simp) rfl
        ((h.tasks task).idle rfl rfl (.inl rfl) rfl) (.inl ⟨rfl, _, by simp [Kern.readyAdd]; rfl⟩)
      simp [tickListRm_tickList]

/-- `task_mutex_free` keeps the kernel right. -/
theorem taskMutexFree_ok {m : Option ℕ} (h : KernOk s del)
    (hc : taskMutexFree fuel s m = some s') : KernOk s' del := by
  induction fuel generalizing s m with
  | zero => cases hc
  | succ fuel ih =>
    cases m with
    | none =>
      cases hc
      exact h
    | some mutex =>
      unfold taskMutexFree at hc
      simp only at hc
      split at hc
      case h_1 =>
        exact ih (h.setOwner mutex none) hc
      case h_2 next rest _ =>
        split at hc
        case h_1 => cases hc
        case h_2 s₁ hwake => exact ih (mutexHandTo_ok (pendTaskEnd_ok h hwake)) hc

/-- Taking a task off its lists to delete it keeps the kernel right. -/
theorem taskDelSwitch_ok (h : KernOk s del) (hc : taskDelSwitch fuel s task = some (some s')) :
    KernOk s' del := by
  unfold taskDelSwitch at hc
  simp only at hc
  split at hc
  case h_1 hs =>
    obtain ⟨s₁, hrm, heq⟩ := Option.map_eq_some_iff.1 hc
    cases heq
    obtain ⟨rq, hrq, rfl⟩ := readyRm_cases hrm
    apply KernOk.record
    have hok := h.tasks task
    have hhead : (s.tasks task).tickHead = false := by
      simpa [Timed, Pending, hs] using hok.tickHead_iff
    refine h.updateReady { s.tasks task with taskState := .deleted } rfl rfl rfl
      (hok.idle rfl rfl (.inr (.inl rfl)) hhead) ?_ ?_ rfl (h.rq.rm (ready_facts hs).1 hrq)
    · simp [Timed, Pending, hs]
    · simp [waitsFor, Pending, hs]
  case h_2 hs =>
    cases hc
    have hhead : (s.tasks task).tickHead = false := by
      simpa [Timed, Pending, hs] using (h.tasks task).tickHead_iff
    refine h.wake { s.tasks task with taskState := .deleted } (by simp [Pending, hs]) (by simp [hs])
      rfl (by simp [hhead]) rfl rfl ((h.tasks task).idle rfl rfl (.inr (.inl rfl)) hhead)
      (.inr ⟨.inl rfl, rfl⟩)
  case h_3 => cases hc
  case h_4 => cases hc
  case h_5 hs =>
    obtain ⟨s₁, hcancel, heq⟩ := Option.map_eq_some_iff.1 hc
    cases heq
    exact (pendCancel_ok h (.inl hs) (.inr (.inl rfl)) hcancel).1.record _
  case h_6 hs =>
    obtain ⟨s₁, hcancel, heq⟩ := Option.map_eq_some_iff.1 hc
    cases heq
    exact (pendCancel_ok h (.inr hs) (.inr (.inl rfl)) hcancel).1.record _
  case h_7 h1 h2 h3 h4 h5 h6 =>
    cases hc
    refine h.wake { s.tasks task with tickHead := false, taskState := .deleted }
      (by rintro (hs | hs); exacts [h5 hs, h6 hs]) h1 (by simp) ?_ (by simp) rfl
      ((h.tasks task).idle rfl rfl (.inr (.inl rfl)) rfl) (.inr ⟨.inl rfl, by simp⟩)
    simp [tickListRm_tickList]

/-- The part that the two functions that delete a task have in common: the mutexes of the task are
freed, then the task itself leaves its lists, unless it is deleted already. -/
def Deletes (fuel : ℕ) (s : Kern) (task : ℕ) (s' : Kern) : Prop :=
  ∃ s₁, taskMutexFree fuel s (s.tasks task).mutexList = some s₁ ∧
    ((taskDelSwitch fuel s₁ task = some none ∧ s' = s₁) ∨
      taskDelSwitch fuel s₁ task = some (some s'))

/-- The checks that both functions make pass, and the task's mutexes are freed. -/
def DelAllowed (s : Kern) (task : ℕ) (flag : AllocFlag) : Prop :=
  s.intrptLevel = 0 ∧ (s.tasks task).prio ≠ idlePri ∧ (s.tasks task).mmAllocFlag = flag ∧
    ¬ (task = s.active ∧ 0 < s.schedLock)

/-- `krhino_task_del` changes nothing, or deletes a static task that may be deleted. -/
theorem krhinoTaskDel_cases {given : Option ℕ} {st : KStat}
    (hc : krhinoTaskDel fuel s given = some (st, s')) :
    s' = s ∨ (DelAllowed s (given.getD s.active) .staticAlloc ∧
      Deletes fuel s (given.getD s.active) s') := by
  unfold krhinoTaskDel at hc
  simp only at hc
  split_ifs at hc with hintrpt hidle hflag hlock
  · cases hc
    exact .inl rfl
  · cases hc
    exact .inl rfl
  · cases hc
    exact .inl rfl
  · cases hc
    exact .inl rfl
  · right
    refine ⟨⟨by omega, hidle, not_not.1 hflag, hlock⟩, ?_⟩
    split at hc
    case h_1 => cases hc
    case h_2 s₁ hfree =>
      split at hc
      case h_1 => cases hc
      case h_2 hnone =>
        cases hc
        exact ⟨_, hfree, .inl ⟨hnone, rfl⟩⟩
      case h_3 s₂ hsome =>
        cases hc
        exact ⟨s₁, hfree, .inr hsome⟩

/-- `krhino_task_dyn_del` changes nothing, or deletes a dynamic task that may be deleted. -/
theorem krhinoTaskDynDel_cases {given : Option ℕ} {st : KStat}
    (hc : krhinoTaskDynDel fuel s given = some (st, s')) :
    s' = s ∨ (DelAllowed s (given.getD s.active) .dynAlloc ∧
      (s.tasks (given.getD s.active)).taskState ≠ .deleted ∧
      ∃ s₀, resSemGive s = some s₀ ∧ Deletes fuel s₀ (given.getD s.active) s') := by
  unfold krhinoTaskDynDel at hc
  simp only at hc
  split_ifs at hc with hintrpt hidle hflag hlock hdel
  · cases hc
    exact .inl rfl
  · cases hc
    exact .inl rfl
  · cases hc
    exact .inl rfl
  · cases hc
    exact .inl rfl
  · cases hc
    exact .inl rfl
  · right
    split at hc
    case h_1 => cases hc
    case h_2 s₀ hgive =>
      refine ⟨⟨by omega, hidle, not_not.1 hflag, hlock⟩, hdel, s₀, hgive, ?_⟩
      split at hc
      case h_1 => cases hc
      case h_2 s₁ hfree =>
        split at hc
        case h_1 => cases hc
        case h_2 hnone =>
          cases hc
          exact ⟨_, hfree, .inl ⟨hnone, rfl⟩⟩
        case h_3 s₂ hsome =>
          cases hc
          exact ⟨s₁, hfree, .inr hsome⟩

/-- Deleting a task keeps the kernel right. -/
theorem Deletes.ok (hc : Deletes fuel s task s') (h : KernOk s del) : KernOk s' del := by
  obtain ⟨s₁, hfree, ⟨-, rfl⟩ | hswitch⟩ := hc
  · exact taskMutexFree_ok h hfree
  · exact taskDelSwitch_ok (taskMutexFree_ok h hfree) hswitch

/-- `krhino_sem_give` wakes the first waiter, if there is one. -/
theorem resSemGive_cases (hc : resSemGive s = some s') :
    s' = s ∨ ((s.objs resSem).objType = .other ∧ ∃ first rest,
      (s.objs resSem).blkList = first :: rest ∧ pendTaskWakeup s first = some s') := by
  unfold resSemGive at hc
  split at hc
  case isTrue => cases hc
  case isFalse htype =>
    split at hc
    case h_1 =>
      cases hc
      exact .inl rfl
    case h_2 first rest hlist => exact .inr ⟨not_not.1 htype, first, rest, hlist, hc⟩

/-- Giving the semaphore for the resources of the task keeps the kernel right. -/
theorem resSemGive_ok (h : KernOk s del) (hc : resSemGive s = some s') : KernOk s' del := by
  obtain rfl | ⟨-, first, rest, -, hwake⟩ := resSemGive_cases hc
  · exact h
  · exact pendTaskEnd_ok h hwake

/-- A timeout keeps the kernel right. -/
theorem tickTimeout_ok (h : KernOk s del) (hc : tickTimeout fuel s task = some s') :
    KernOk s' del := by
  unfold tickTimeout at hc
  split at hc
  case h_1 hs =>
    cases hc
    refine h.wake { s.tasks task with blkState := .finish, taskState := .rdy, tickHead := false }
      (by simp [Pending, hs]) (by simp [hs]) (by simp) ?_ (by simp) rfl
      ((h.tasks task).idle rfl rfl (.inl rfl) rfl) (.inl ⟨rfl, _, by simp [Kern.readyAdd]; rfl⟩)
    simp [tickListRm_tickList]
  case h_2 hs =>
    obtain ⟨s₁, hcancel, rfl⟩ := Option.map_eq_some_iff.1 hc
    exact pendCancel_clear_ok h (.inl hs) (.inl rfl) hcancel
  case h_3 hs =>
    obtain ⟨s₁, hcancel, rfl⟩ := Option.map_eq_some_iff.1 hc
    exact pendCancel_clear_ok h (.inr hs) (.inr ⟨rfl, hs⟩) hcancel
  case h_4 hs =>
    cases hc
    have hcount := (h.tasks task).count (.inr (.inr hs))
    refine h.wake { s.tasks task with
      taskState := .suspended, blkState := .finish, tickHead := false }
      (by simp [Pending, hs]) (by simp [hs]) (by simp) ?_ (by simp) rfl
      ((h.tasks task).idle rfl rfl (.inr (.inr ⟨rfl, hcount⟩)) rfl) (.inr ⟨.inr rfl, by simp⟩)
    simp [tickListRm_tickList]
  case h_5 => cases hc

/-- The loop of `tick_list_update` keeps the kernel right. -/
theorem tickListLoop_ok {l : List ℕ} (h : KernOk s del) (hc : tickListLoop fuel s l = some s') :
    KernOk s' del := by
  induction l generalizing s with
  | nil =>
    cases hc
    exact h
  | cons first rest ih =>
    unfold tickListLoop at hc
    split at hc
    case isTrue =>
      split at hc
      case h_1 => cases hc
      case h_2 s₁ htimeout => exact ih (tickTimeout_ok h htimeout) hc
    case isFalse =>
      cases hc
      exact h

/-- `tick_list_update` keeps the kernel right. -/
theorem tickListUpdate_ok {ticks : ℕ} (h : KernOk s del)
    (hc : tickListUpdate fuel s ticks = some s') : KernOk s' del := by
  unfold tickListUpdate at hc
  refine tickListLoop_ok ?_ hc
  exact ⟨h.rq, h.tick, h.blk, h.tasks, h.dead⟩

/-- The list of a priority is rotated, the time slice of a task set. -/
theorem KernOk.rotate {prio n : ℕ} {rq : RunQueue} (h : KernOk s del)
    (hrot : readyListHeadToTail s.rq prio = some rq) :
    KernOk ({ s with rq := rq }.setTask task { s.tasks task with timeSlice := n }) del := by
  have h₁ : KernOk { s with rq := rq } del :=
    ⟨h.rq.headToTail hrot, h.tick, h.blk, h.tasks, h.dead⟩
  have hok := h.tasks task
  exact h₁.setTask ⟨hok.prio_lt, hok.bPrio_lt, hok.tickHead_iff, hok.count, hok.blkObj⟩ rfl
    Iff.rfl rfl

/-- `time_slice_update` keeps the kernel right. -/
theorem timeSliceUpdate_ok (h : KernOk s del) (hc : timeSliceUpdate s = some s') :
    KernOk s' del := by
  unfold timeSliceUpdate at hc
  simp only at hc
  split at hc
  case h_1 =>
    cases hc
    exact h
  case h_2 =>
    cases hc
    exact h
  case h_3 first rest _ _ =>
    split_ifs at hc with hfifo hslice
    · cases hc
      exact h
    · cases hc
      have hok := h.tasks first
      exact h.setTask ⟨hok.prio_lt, hok.bPrio_lt, hok.tickHead_iff, hok.count, hok.blkObj⟩ rfl
        Iff.rfl rfl
    · obtain ⟨rq, hrot, rfl⟩ := Option.map_eq_some_iff.1 hc
      exact h.rotate hrot

/-- Waiting for an object keeps the kernel right. -/
theorem blkObjPend_ok {ticks : ℕ} {st : Option KStat} (h : KernOk s del)
    (hrun : 0 < s.intrptLevel ∨ (s.tasks s.active).taskState = .rdy)
    (hc : blkObjPend s obj ticks = some (st, s')) : KernOk s' del := by
  unfold blkObjPend at hc
  split_ifs at hc with hintrpt htype hticks hlock
  · cases hc
    exact h
  · cases hc
    exact h
  · cases hc
    exact h
  · cases hc
    exact h
  · obtain ⟨s₁, hpend, heq⟩ := Option.map_eq_some_iff.1 hc
    cases heq
    exact pendToBlkObj_ok h (hrun.resolve_left hintrpt) (Nat.pos_of_ne_zero hticks)
      (by simp [not_not.1 htype]) hpend

/-- Waking a task that waits keeps the kernel right. -/
theorem blkObjWake_ok {st : KStat} (h : KernOk s del)
    (hc : blkObjWake s obj task = some (st, s')) : KernOk s' del := by
  unfold blkObjWake at hc
  split_ifs at hc with htype hmem
  · cases hc
    exact h
  · obtain ⟨s₁, hwake, heq⟩ := Option.map_eq_some_iff.1 hc
    cases heq
    exact pendTaskEnd_ok h hwake

/-- Deleting an object keeps the kernel right. -/
theorem blkObjDel_ok {st : KStat} (h : KernOk s none)
    (hc : blkObjDel fuel s obj = some (st, s')) : KernOk s' none := by
  unfold blkObjDel at hc
  split_ifs at hc with hintrpt htype
  · cases hc
    exact h
  · cases hc
    exact h
  · obtain ⟨s₁, hall, heq⟩ := Option.map_eq_some_iff.1 hc
    cases heq
    obtain ⟨h₁, hnil⟩ := pendTaskRmAll_ok (h.beginDel obj) hall
    exact h₁.endDel hnil

/-- Creating an object keeps the kernel right. -/
theorem blkObjCreate_ok {policy : BlkPolicy} (h : KernOk s none)
    (hc : blkObjCreate s obj policy = some s') : KernOk s' none := by
  unfold blkObjCreate at hc
  split_ifs at hc with hfree
  cases hc
  apply h.setObj obj
  · rw [h.dead obj (not_not.1 hfree) (by simp)]
  · intro hnone
    cases hnone

end Waits

end GenieSdk.Analysis.Rhino
