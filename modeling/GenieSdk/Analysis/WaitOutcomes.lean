import GenieSdk.Analysis.MutexNesting

/-!
# How a wait ends

A task finds out in `blk_state` how its wait has ended. **A call of the kernel that does not concern
the object ends a wait for it, if that is no mutex, by a timeout, an abort or not at all; and what a
task finds that has been woken stays until it runs** (`kernStep_waitKept`), unless it is deleted. Nor
does such a call bring a task to wait for the object.
-/

set_option autoImplicit false

namespace GenieSdk.Analysis.Rhino

open GenieSdk.Model.Rhino
open GenieSdk.Model (AllocFlag BlkState KStat addTime)

/-- The task waits for nothing: it is ready, or would be if it were not suspended. -/
def Unblocked (t : KTask) : Prop := t.taskState = .rdy ∨ t.taskState = .suspended

/-- A wait for one of the objects `P` goes on or ends without success, and how a wait has ended is
kept. -/
structure WaitKept (P : ℕ → Prop) (t t' : KTask) : Prop where
  waiting : ∀ obj, P obj → waitsFor t = some obj →
    waitsFor t' = some obj ∨ (Unblocked t' ∧ t'.blkState ≠ .finish)
  woken : Unblocked t → Unblocked t' ∧ t'.blkState = t.blkState

/-- The objects `P` keep their types, no task comes to wait for one of them, and the waits of all tasks
but `D` are kept. -/
structure Kept (P D : ℕ → Prop) (s s' : Kern) : Prop where
  type : ∀ obj, P obj → (s'.objs obj).objType = (s.objs obj).objType
  waiters : ∀ obj t, P obj → waitsFor (s'.tasks t) = some obj → waitsFor (s.tasks t) = some obj
  waits : ∀ t, ¬ D t → WaitKept P (s.tasks t) (s'.tasks t)

/-- The calls that a task makes to wait for the object, to end another's wait for it, or to delete it. -/
def UsesObj (obj : ℕ) : KernCall → Prop
  | .blkObjPend o _ => o = obj
  | .blkObjWake o _ => o = obj
  | .blkObjDel o => o = obj
  | _ => False

section Waits

variable {P : ℕ → Prop} {a b c : KTask}

/-- A task that is not blocked does not wait. -/
theorem Unblocked.not_pending (h : Unblocked a) : ¬ Pending a := by
  rintro (hp | hp)
  all_goals
    rcases h with h | h
    all_goals
      rw [hp] at h
      cases h

/-- And waits for no object. -/
theorem Unblocked.waitsFor (h : Unblocked a) : Rhino.waitsFor a = none := if_neg h.not_pending

/-- A task keeps its wait if nothing changes. -/
theorem WaitKept.refl (P : ℕ → Prop) (a : KTask) : WaitKept P a a :=
  ⟨fun _ _ h => .inl h, fun h => ⟨h, rfl⟩⟩

/-- And if two steps keep it. -/
theorem WaitKept.trans (h : WaitKept P a b) (h' : WaitKept P b c) : WaitKept P a c where
  waiting obj hP hw := by
    obtain hw | ⟨hfree, hstate⟩ := h.waiting obj hP hw
    · exact h'.waiting obj hP hw
    · obtain ⟨hfree', hsame⟩ := h'.woken hfree
      exact .inr ⟨hfree', by rwa [hsame]⟩
  woken ha := by
    obtain ⟨hb, hsame⟩ := h.woken ha
    obtain ⟨hc, hsame'⟩ := h'.woken hb
    exact ⟨hc, hsame'.trans hsame⟩

/-- A task that has been woken. -/
theorem WaitKept.of_unblocked (ha : Unblocked a) (hb : Unblocked b)
    (hblk : b.blkState = a.blkState) : WaitKept P a b where
  waiting obj _ hw := by
    rw [ha.waitsFor] at hw
    cases hw
  woken _ := ⟨hb, hblk⟩

/-- The states in which a task neither waits for an object nor has been woken. -/
theorem waitKept_of_state (hstate : a.taskState = .seed ∨ a.taskState = .sleep ∨
    a.taskState = .sleepSuspended ∨ a.taskState = .deleted) : WaitKept P a b := by
  rcases hstate with h | h | h | h
  all_goals
    refine ⟨fun obj _ hw => ?_, fun hfree => ?_⟩
    · simp [Rhino.waitsFor, Pending, h] at hw
    · simp [Unblocked, h] at hfree

/-- Suspension does not concern how a wait has ended. -/
theorem Resuspended.waitKept (h : Resuspended a b) (hblk : b.blkState = a.blkState) :
    WaitKept P a b where
  waiting obj _ hw := by
    left
    rwa [h.lists.2.2]
  woken ha := by
    refine ⟨?_, hblk⟩
    have hbase : baseState b.taskState = .rdy := by
      rw [h.base]
      rcases ha with ha | ha
      all_goals rw [ha]; rfl
    unfold Unblocked
    cases hb : b.taskState
    all_goals
      rw [hb] at hbase
      simp [baseState] at hbase ⊢

end Waits

/-! ## What the functions below the calls keep -/

section Kept

variable {P D : ℕ → Prop} {s s' s₁ s₂ s₃ : Kern} {del : Option ℕ} {task mutex obj fuel : ℕ}

/-- All waits are kept if nothing changes. -/
theorem Kept.refl (P D : ℕ → Prop) (s : Kern) : Kept P D s s :=
  ⟨fun _ _ => rfl, fun _ _ _ h => h, fun _ _ => .refl _ _⟩

/-- And if two steps keep them. -/
theorem Kept.trans (h : Kept P D s₁ s₂) (h' : Kept P D s₂ s₃) : Kept P D s₁ s₃ where
  type obj hP := (h'.type obj hP).trans (h.type obj hP)
  waiters obj t hP hw := h.waiters obj t hP (h'.waiters obj t hP hw)
  waits t hD := (h.waits t hD).trans (h'.waits t hD)

/-- One task is written. -/
theorem kept_of_update (u : ℕ) (u' : KTask) (htasks : s'.tasks = Function.update s.tasks u u')
    (htype : ∀ o, (s'.objs o).objType = (s.objs o).objType)
    (hnew : ∀ obj, P obj → waitsFor u' = some obj → waitsFor (s.tasks u) = some obj)
    (hwait : ¬ D u → WaitKept P (s.tasks u) u') : Kept P D s s' where
  type obj _ := htype obj
  waiters obj t hP hw := by
    rw [htasks, Function.update_apply] at hw
    split at hw
    case isTrue heq =>
      rw [heq]
      exact hnew obj hP hw
    case isFalse => exact hw
  waits t hD := by
    rw [htasks, Function.update_apply]
    split
    case isTrue heq =>
      rw [heq] at hD ⊢
      exact hwait hD
    case isFalse => exact .refl _ _

/-- A task is written that then waits for nothing. -/
theorem kept_of_free (u : ℕ) (u' : KTask) (htasks : s'.tasks = Function.update s.tasks u u')
    (htype : ∀ o, (s'.objs o).objType = (s.objs o).objType) (hfree : ¬ Pending u')
    (hwait : ¬ D u → WaitKept P (s.tasks u) u') : Kept P D s s' := by
  refine kept_of_update u u' htasks htype (fun obj _ hw => ?_) hwait
  rw [waitsFor, if_neg hfree] at hw
  cases hw

/-- Other fields of a task are written. -/
theorem kept_of_fields (u : ℕ) (u' : KTask) (htasks : s'.tasks = Function.update s.tasks u u')
    (htype : ∀ o, (s'.objs o).objType = (s.objs o).objType)
    (hstate : u'.taskState = (s.tasks u).taskState) (hblk : u'.blkState = (s.tasks u).blkState)
    (hobj : u'.blkObj = (s.tasks u).blkObj) : Kept P D s s' := by
  have hpend : Pending u' ↔ Pending (s.tasks u) := by
    unfold Pending
    rw [hstate]
  have hwaits : waitsFor u' = waitsFor (s.tasks u) := by
    unfold waitsFor
    simp only [hpend, hobj]
  refine kept_of_update u u' htasks htype (fun obj _ hw => by rwa [← hwaits]) fun _ => ?_
  refine ⟨fun obj _ hw => .inl (by rwa [hwaits]), fun hfree => ⟨?_, hblk⟩⟩
  unfold Unblocked at hfree ⊢
  rwa [hstate]

/-- The tasks are as they were. -/
theorem kept_of_tasks (htasks : s'.tasks = s.tasks)
    (htype : ∀ obj, P obj → (s'.objs obj).objType = (s.objs obj).objType) : Kept P D s s' := by
  refine ⟨htype, fun obj t _ hw => by rwa [htasks] at hw, fun t _ => ?_⟩
  rw [htasks]
  exact .refl _ _

/-- An object is written that keeps its type, or is none of `P`. -/
theorem kept_setObj {o : KObj} (htype : P mutex → o.objType = (s.objs mutex).objType) :
    Kept P D s (s.setObj mutex o) := by
  refine kept_of_tasks rfl fun obj hP => ?_
  rw [setObj_objs, Function.update_apply]
  split
  case isTrue heq =>
    rw [heq] at hP ⊢
    exact htype hP
  case isFalse => rfl

/-- A change of priorities and lists keeps all waits. -/
theorem Frame.kept (h : Frame s s') : Kept P D s s' where
  type obj _ := by rw [h.obj obj]
  waiters obj t _ hw := by
    rw [h.task t] at hw
    exact hw
  waits t _ := by
    rw [h.task t]
    exact ⟨fun _ _ hw => .inl hw, fun hfree => ⟨hfree, rfl⟩⟩

/-- Taking a task off its list leaves the types of the objects. -/
theorem blkListRm_objType (s : Kern) (task obj : ℕ) :
    ((blkListRm s task).objs obj).objType = (s.objs obj).objType := by
  unfold blkListRm
  split
  · rfl
  · next o _ =>
      rw [setObj_objs, Function.update_apply]
      split
      case isTrue heq => rw [heq]
      case isFalse => rfl

/-- What the end of a wait leaves in the task. -/
theorem pendTaskEnd_tasks {st : BlkState} (hc : pendTaskEnd s task st = some s') :
    Pending (s.tasks task) ∧ (∀ o, (s'.objs o).objType = (s.objs o).objType) ∧
      ∃ t', s'.tasks = Function.update s.tasks task t' ∧ Unblocked t' ∧ t'.blkState = st := by
  unfold pendTaskEnd at hc
  split at hc
  case h_1 hs =>
    cases hc
    exact ⟨.inl hs, by simp [blkListRm_objType], { s.tasks task with
      taskState := .rdy, tickHead := false, blkState := st, blkObj := none }, by simp,
      .inl rfl, rfl⟩
  case h_2 hs =>
    cases hc
    exact ⟨.inr hs, by simp [blkListRm_objType], { s.tasks task with
      taskState := .suspended, tickHead := false, blkState := st, blkObj := none }, by simp,
      .inr rfl, rfl⟩
  case h_3 => cases hc

/-- **A wait is ended.** It ends without success, or it is not one for an object of `P`. -/
theorem pendTaskEnd_kept {st : BlkState} (hc : pendTaskEnd s task st = some s')
    (hend : ¬ D task → ∀ obj, P obj → waitsFor (s.tasks task) = some obj → st ≠ .finish) :
    Kept P D s s' := by
  obtain ⟨hpend, htype, t', htasks, hfree, hst⟩ := pendTaskEnd_tasks hc
  refine kept_of_free task t' htasks htype hfree.not_pending fun hD =>
    ⟨fun obj hP hw => ?_, fun ha => absurd hpend ha.not_pending⟩
  rw [hst]
  exact .inr ⟨hfree, hend hD obj hP hw⟩

/-- Waking the tasks of an object keeps the other waits. -/
theorem pendTaskRmAll_kept (hc : pendTaskRmAll fuel s obj = some s') : Kept P D s s' := by
  induction fuel generalizing s with
  | zero => cases hc
  | succ fuel ih =>
    unfold pendTaskRmAll at hc
    split at hc
    case h_1 =>
      cases hc
      exact .refl _ _ _
    case h_2 =>
      split at hc
      case h_1 => cases hc
      case h_2 s₁ hrm => exact (pendTaskEnd_kept hrm fun _ _ _ _ => by decide).trans (ih hc)

/-- A task is woken that waits for an object outside `P`. -/
theorem wake_kept (hk : KernOk s del) (hP : ¬ P obj) (hmem : task ∈ (s.objs obj).blkList)
    (hc : pendTaskWakeup s task = some s') : Kept P D s s' := by
  refine pendTaskEnd_kept hc fun _ o ho hw => ?_
  obtain rfl : obj = o := Option.some.inj (((hk.blk.mem_iff task obj).1 hmem).symm.trans hw)
  exact absurd ho hP

/-- Handing a mutex to a task keeps all waits. -/
theorem mutexHandTo_kept : Kept P D s (mutexHandTo s mutex task) := by
  have hobj : Kept P D s (s.setObj mutex { s.objs mutex with
    mutexTask := some task, mutexList := (s.tasks task).mutexList }) := kept_setObj fun _ => rfl
  exact hobj.trans (kept_of_fields task { s.tasks task with mutexList := some mutex } rfl
    (fun _ => rfl) rfl rfl rfl)

/-- What a cancelled wait leaves in the task, before its object is forgotten. -/
theorem pendCancel_tasks {st : TaskStat} {blk : BlkState} (hk : KernOk s del)
    (hpend : Pending (s.tasks task))
    (hst : st = .rdy ∨ st = .deleted ∨
      (st = .suspended ∧ (s.tasks task).taskState = .pendSuspended))
    (hwait : ¬ D task → WaitKept P (s.tasks task)
      { s.tasks task with tickHead := false, taskState := st, blkState := blk })
    (hc : pendCancel fuel s task st blk = some s') :
    Kept P D s s' ∧ (s'.tasks task).taskState = st := by
  obtain ⟨o, ho⟩ := (hk.tasks task).blkObj hpend
  have hframe := (pendCancel_ok hk hpend hst hc).2
  have htype : ∀ obj, ((cancelled s task st blk).objs obj).objType = (s.objs obj).objType := by
    intro obj
    rw [cancelled_objs ho, Function.update_apply]
    split
    case isTrue heq => rw [heq]
    case isFalse => rfl
  have hfree : ¬ Pending { s.tasks task with tickHead := false, taskState := st, blkState := blk } := by
    obtain rfl | rfl | ⟨rfl, -⟩ := hst
    all_goals simp [Pending]
  constructor
  · exact (kept_of_free task _ (cancelled_tasks s task st blk) htype hfree hwait).trans hframe.kept
  · rw [hframe.task, cancelled_tasks, Function.update_self]

/-- A wait is cancelled, and the task lives on. -/
theorem pendCancel_kept {st : TaskStat} {blk : BlkState} (hk : KernOk s del)
    (hpend : Pending (s.tasks task)) (hblk : blk ≠ .finish)
    (hst : st = .rdy ∨ (st = .suspended ∧ (s.tasks task).taskState = .pendSuspended))
    (hc : pendCancel fuel s task st blk = some s') : Kept P D s (clearBlkObj s' task) := by
  have hwait : WaitKept P (s.tasks task)
      { s.tasks task with tickHead := false, taskState := st, blkState := blk } :=
    ⟨fun _ _ _ => .inr ⟨hst.imp_right And.left, hblk⟩, fun ha => absurd hpend ha.not_pending⟩
  obtain ⟨hkept, hstate⟩ := pendCancel_tasks hk hpend (hst.imp_right .inr) (fun _ => hwait) hc
  have hfree : Unblocked (s'.tasks task) := by
    unfold Unblocked
    rw [hstate]
    exact hst.imp_right And.left
  exact hkept.trans (kept_of_free task { s'.tasks task with blkObj := none } rfl (fun _ => rfl)
    hfree.not_pending fun _ => .of_unblocked hfree hfree rfl)

/-- What `pend_to_blk_obj` does to the tasks. -/
theorem pendToBlkObj_tasks {ticks : ℕ} (hticks : 0 < ticks)
    (hc : pendToBlkObj s obj task ticks = some s') :
    waitsFor (s'.tasks task) = some obj ∧ (∀ t, t ≠ task → s'.tasks t = s.tasks t) ∧
      ∀ o, (s'.objs o).objType = (s.objs o).objType := by
  obtain ⟨tickMatch, tickRemain, l, rq, bl, -, -, -, -, rfl⟩ := pendToBlkObj_eq hticks hc
  rw [setObj_tasks]
  refine ⟨?_, fun t ht => Function.update_of_ne ht .., fun o => ?_⟩
  · simp [pendedTask, waitsFor, Pending]
  · rw [setObj_objs, Function.update_apply]
    split
    case isTrue ho => rw [ho]
    case isFalse => rfl

/-- A task that is not spoken of blocks on an object outside `P`. -/
theorem pendToBlkObj_kept {ticks : ℕ} (hP : ¬ P obj) (hD : D task) (hticks : 0 < ticks)
    (hc : pendToBlkObj s obj task ticks = some s') : Kept P D s s' := by
  obtain ⟨hwaits, hsame, htypes⟩ := pendToBlkObj_tasks hticks hc
  refine ⟨fun o _ => htypes o, fun o t ho hw => ?_, fun t ht => ?_⟩
  · by_cases htask : t = task
    · rw [htask, hwaits] at hw
      obtain rfl := Option.some.inj hw
      exact absurd ho hP
    · rwa [hsame t htask] at hw
  · have htask : t ≠ task := by
      rintro rfl
      exact ht hD
    rw [hsame t htask]
    exact .refl _ _

/-- A task is deleted that is not spoken of. -/
theorem taskDelSwitch_kept (hk : KernOk s del) (hD : D task)
    (hc : taskDelSwitch fuel s task = some (some s')) : Kept P D s s' := by
  obtain ⟨s₁, rfl, ⟨t', hstate, htasks, hobjs, -⟩ | ⟨hpend, hcancel⟩⟩ := taskDelSwitch_cases hc
  · have hkept : Kept P D s s₁ := kept_of_free task t' htasks (fun o => by rw [hobjs])
      (by simp [Pending, hstate]) fun h => absurd hD h
    exact hkept.trans (kept_of_tasks rfl fun _ _ => rfl)
  · have hkept : Kept P D s s₁ := (pendCancel_tasks hk hpend (.inr (.inl rfl))
      (fun h => absurd hD h) hcancel).1
    exact hkept.trans (kept_of_tasks rfl fun _ _ => rfl)

/-- The mutexes are freed of a task whose waits are not spoken of, nor is anyone's. -/
theorem taskMutexFree_kept_all {m : Option ℕ} (hc : taskMutexFree fuel s m = some s') :
    Kept P (fun _ => True) s s' := by
  induction fuel generalizing s m with
  | zero => cases hc
  | succ fuel ih =>
    cases m with
    | none =>
      cases hc
      exact .refl _ _ _
    | some mutex =>
      unfold taskMutexFree at hc
      simp only at hc
      split at hc
      case h_1 =>
        have hobj : Kept P (fun _ => True) s
          (s.setObj mutex { s.objs mutex with mutexTask := none }) := kept_setObj fun _ => rfl
        exact hobj.trans (ih hc)
      case h_2 next rest _ =>
        split at hc
        case h_1 => cases hc
        case h_2 s₁ hwake =>
          exact (pendTaskEnd_kept hwake fun h => absurd trivial h).trans
            (mutexHandTo_kept.trans (ih hc))

/-- The mutexes of a task are freed; none of them is an object of `P`. -/
theorem taskMutexFree_kept (hk : KernOk s del) (ho : Owned s) (hlive : Live (s.tasks task))
    (hP : ∀ m, (s.objs m).objType = .mutex → ¬ P m)
    (hc : taskMutexFree fuel s (s.tasks task).mutexList = some s') : Kept P D s s' := by
  obtain ⟨l, hl, hnodup, hmem⟩ := ho.chain task hlive (by simp)
  have hstart : (∀ m ∈ l, ¬ P m) ∧ Kept P D s s :=
    ⟨fun m hm => hP m ((hmem m).1 hm).1, .refl _ _ _⟩
  refine (taskMutexFree_rule (I := fun s₁ l => (∀ m ∈ l, ¬ P m) ∧ Kept P D s s₁) hk hl hnodup
    hstart ?_ ?_ hc).2.2
  · intro s₁ m l _ _ hI _
    exact ⟨fun m' hm' => hI.1 m' (List.mem_cons_of_mem _ hm'),
      hI.2.trans (kept_setObj fun _ => rfl)⟩
  · intro s₁ s₂ m l w rest hk₁ _ hI hlist hwake
    refine ⟨fun m' hm' => hI.1 m' (List.mem_cons_of_mem _ hm'), ?_⟩
    have hw : w ∈ (s₁.objs m).blkList := by
      rw [hlist]
      exact List.mem_cons_self
    exact (hI.2.trans (wake_kept hk₁ (hI.1 m List.mem_cons_self) hw hwake)).trans mutexHandTo_kept

end Kept

/-! ## The calls of the kernel -/

section Calls

variable {P D : ℕ → Prop} {s s' s₁ : Kern} {del : Option ℕ} {t task mutex fuel : ℕ}

/-- `krhino_task_sleep` keeps all waits but that of the running task. -/
theorem krhinoTaskSleep_kept {ticks : ℕ} {st : Option KStat} (hD : D s.active ∨ 0 < s.intrptLevel)
    (hc : krhinoTaskSleep s ticks = some (st, s')) : Kept P D s s' := by
  obtain rfl | ⟨hintrpt, tickMatch, l, rq, -, -, rfl⟩ := krhinoTaskSleep_cases hc
  · exact .refl _ _ _
  · exact kept_of_free s.active (sleepingTask (s.tasks s.active) ticks tickMatch) rfl (fun _ => rfl)
      (by simp [sleepingTask, Pending]) fun h => absurd (hD.resolve_right hintrpt) h

/-- Suspending a task leaves the outcome of its wait. -/
theorem krhinoTaskSuspend_blkState {st : KStat} (hc : krhinoTaskSuspend s task = some (st, s')) :
    (s'.tasks task).blkState = (s.tasks task).blkState := by
  unfold krhinoTaskSuspend taskSuspend at hc
  split_ifs at hc
  · cases hc
    rfl
  · cases hc
    rfl
  · simp only at hc
    split at hc
    case h_1 =>
      obtain ⟨s₁, hrm, heq⟩ := Option.map_eq_some_iff.1 hc
      cases heq
      obtain ⟨rq, -, rfl⟩ := readyRm_cases hrm
      simp
    case h_6 =>
      split_ifs at hc
      all_goals
        cases hc
        simp
    all_goals
      cases hc
      simp

/-- So does resuming it. -/
theorem krhinoTaskResume_blkState {st : KStat} (hc : krhinoTaskResume s task = some (st, s')) :
    (s'.tasks task).blkState = (s.tasks task).blkState := by
  unfold krhinoTaskResume at hc
  simp only at hc
  split at hc
  case h_1 =>
    split_ifs at hc
    all_goals
      cases hc
      simp
  all_goals
    cases hc
    simp

/-- A task is suspended or resumed. -/
theorem Resuspended.kept {t' : KTask} {rq : RunQueue} (h : Resuspended (s.tasks task) t')
    (hblk : t'.blkState = (s.tasks task).blkState) :
    Kept P D s { s with rq := rq, tasks := Function.update s.tasks task t' } :=
  kept_of_update task t' rfl (fun _ => rfl) (fun obj _ hw => by rwa [← h.lists.2.2])
    fun _ => h.waitKept hblk

/-- `krhino_task_suspend` keeps all waits. -/
theorem krhinoTaskSuspend_kept {st : KStat} (hk : KernOk s del)
    (hc : krhinoTaskSuspend s task = some (st, s')) : Kept P D s s' := by
  have hblk := krhinoTaskSuspend_blkState hc
  obtain ⟨-, rfl⟩ | ⟨-, t', rq, rfl, hres, -⟩ := krhinoTaskSuspend_cases (hk.tasks task) hc
  · exact .refl _ _ _
  · exact hres.kept (by simpa using hblk)

/-- `krhino_task_resume` keeps all waits. -/
theorem krhinoTaskResume_kept {st : KStat} (hk : KernOk s del)
    (hc : krhinoTaskResume s task = some (st, s')) : Kept P D s s' := by
  have hblk := krhinoTaskResume_blkState hc
  obtain ⟨-, rfl⟩ | ⟨-, t', rq, rfl, hres, -⟩ := krhinoTaskResume_cases (hk.tasks task) hc
  · exact .refl _ _ _
  · exact hres.kept (by simpa using hblk)

/-- `krhino_task_pri_change` keeps all waits. -/
theorem krhinoTaskPriChange_kept {pri : ℕ} {st : KStat} (hk : KernOk s del)
    (hc : krhinoTaskPriChange fuel s task pri = some (st, s')) : Kept P D s s' := by
  obtain rfl | ⟨-, hpri, priLimit, hlimit, hchange⟩ := krhinoTaskPriChange_cases hc
  · exact .refl _ _ _
  · have hp : pri < priMax := hpri.trans_le (Nat.sub_le _ _)
    have hb : Kept P D s (s.setTask task { s.tasks task with bPrio := pri }) :=
      kept_of_fields task { s.tasks task with bPrio := pri } rfl (fun _ => rfl) rfl rfl rfl
    exact hb.trans (hchange.frame (hk.setBPrio hp) (mutexPriLimitLoop_lt hk hp hp hlimit)).1.kept

/-- `krhino_task_wait_abort` keeps the other waits and ends the one with its outcome. -/
theorem krhinoTaskWaitAbort_kept {st : KStat} (hk : KernOk s del)
    (hc : krhinoTaskWaitAbort fuel s task = some (st, s')) : Kept P D s s' := by
  unfold krhinoTaskWaitAbort at hc
  split at hc
  case isTrue =>
    cases hc
    exact .refl _ _ _
  case isFalse =>
    split at hc
    case h_1 =>
      cases hc
      exact .refl _ _ _
    case h_2 hs =>
      cases hc
      exact kept_of_free task { s.tasks task with taskState := .rdy } rfl (fun _ => rfl)
        (by simp [Pending]) fun _ => .of_unblocked (.inr hs) (.inl rfl) rfl
    case h_3 =>
      cases hc
      exact .refl _ _ _
    case h_4 =>
      cases hc
      exact .refl _ _ _
    case h_5 hs =>
      obtain ⟨s₁, hcancel, heq⟩ := Option.map_eq_some_iff.1 hc
      cases heq
      exact pendCancel_kept hk (.inl hs) (by decide) (.inl rfl) hcancel
    case h_6 hs =>
      obtain ⟨s₁, hcancel, heq⟩ := Option.map_eq_some_iff.1 hc
      cases heq
      exact pendCancel_kept hk (.inr hs) (by decide) (.inl rfl) hcancel
    case h_7 h1 h2 h3 h4 h5 h6 =>
      cases hc
      have hstate : (s.tasks task).taskState = .sleep ∨
          (s.tasks task).taskState = .sleepSuspended := by
        cases hs : (s.tasks task).taskState <;> simp_all
      exact kept_of_free task { s.tasks task with
        tickHead := false, taskState := .rdy, blkState := .abort } (by simp) (by simp)
        (by simp [Pending]) fun _ =>
        waitKept_of_state (hstate.elim (fun h => .inr (.inl h)) fun h => .inr (.inr (.inl h)))

/-- A timeout keeps the other waits and ends the one with its outcome. -/
theorem tickTimeout_kept (hk : KernOk s del) (hc : tickTimeout fuel s task = some s') :
    Kept P D s s' := by
  unfold tickTimeout at hc
  split at hc
  case h_1 hs =>
    cases hc
    exact kept_of_free task { s.tasks task with
      blkState := .finish, taskState := .rdy, tickHead := false } (by simp) (by simp)
      (by simp [Pending]) fun _ => waitKept_of_state (.inr (.inl hs))
  case h_2 hs =>
    obtain ⟨s₁, hcancel, rfl⟩ := Option.map_eq_some_iff.1 hc
    exact pendCancel_kept hk (.inl hs) (by decide) (.inl rfl) hcancel
  case h_3 hs =>
    obtain ⟨s₁, hcancel, rfl⟩ := Option.map_eq_some_iff.1 hc
    exact pendCancel_kept hk (.inr hs) (by decide) (.inr ⟨rfl, hs⟩) hcancel
  case h_4 hs =>
    cases hc
    exact kept_of_free task { s.tasks task with
      taskState := .suspended, blkState := .finish, tickHead := false } (by simp) (by simp)
      (by simp [Pending]) fun _ => waitKept_of_state (.inr (.inr (.inl hs)))
  case h_5 => cases hc

/-- The loop of `tick_list_update` keeps all waits but those that time out. -/
theorem tickListLoop_kept {l : List ℕ} (hk : KernOk s del) (hc : tickListLoop fuel s l = some s') :
    Kept P D s s' := by
  induction l generalizing s with
  | nil =>
    cases hc
    exact .refl _ _ _
  | cons first rest ih =>
    unfold tickListLoop at hc
    split at hc
    case isTrue =>
      split at hc
      case h_1 => cases hc
      case h_2 s₁ htimeout =>
        exact (tickTimeout_kept hk htimeout).trans (ih (tickTimeout_ok hk htimeout) hc)
    case isFalse =>
      cases hc
      exact .refl _ _ _

/-- `time_slice_update` keeps all waits. -/
theorem timeSliceUpdate_kept (hc : timeSliceUpdate s = some s') : Kept P D s s' := by
  unfold timeSliceUpdate at hc
  simp only at hc
  split at hc
  case h_1 =>
    cases hc
    exact .refl _ _ _
  case h_2 =>
    cases hc
    exact .refl _ _ _
  case h_3 first rest _ _ =>
    split_ifs at hc with hfifo hslice
    · cases hc
      exact .refl _ _ _
    · cases hc
      exact kept_of_fields first { s.tasks first with
        timeSlice := (s.tasks first).timeSlice - 1 } rfl (fun _ => rfl) rfl rfl rfl
    · obtain ⟨rq, -, rfl⟩ := Option.map_eq_some_iff.1 hc
      exact kept_of_fields first { s.tasks first with
        timeSlice := (s.tasks first).timeTotal } rfl (fun _ => rfl) rfl rfl rfl

/-- Locking a mutex keeps all waits but that of the running task. -/
theorem krhinoMutexLock_kept {ticks : ℕ} {st : Option KStat} (hk : KernOk s del)
    (hP : (s.objs mutex).objType = .mutex → ¬ P mutex) (hD : D s.active ∨ 0 < s.intrptLevel)
    (hc : krhinoMutexLock fuel s mutex ticks = some (st, s')) : Kept P D s s' := by
  obtain rfl | ⟨hintrpt, htype, ⟨-, rfl⟩ | ⟨-, -, rfl⟩ |
    ⟨owner, s₁, -, -, hticks, hraise, hpend⟩⟩ := krhinoMutexLock_cases hc
  · exact .refl _ _ _
  · exact mutexHandTo_kept.trans (kept_setObj fun _ => rfl)
  · have hobj : Kept P D s (s.setObj mutex { s.objs mutex with
        ownerNested := (s.objs mutex).ownerNested + 1 }) := kept_setObj fun _ => rfl
    exact hobj.trans (kept_of_tasks rfl fun _ _ => rfl)
  · have hframe : Frame s s₁ := by
      obtain ⟨-, hchange⟩ | ⟨-, rfl⟩ := hraise
      · exact (hchange.frame hk (hk.tasks s.active).prio_lt).1
      · exact Frame.refl _
    have hactive : D s₁.active := by
      rw [hframe.active]
      exact hD.resolve_right (by omega)
    exact hframe.kept.trans (pendToBlkObj_kept (hP htype) hactive hticks hpend)

/-- Unlocking a mutex keeps the waits for other objects. -/
theorem krhinoMutexUnlock_kept {st : KStat} (hk : KernOk s del)
    (hP : (s.objs mutex).objType = .mutex → ¬ P mutex)
    (hc : krhinoMutexUnlock fuel s mutex = some (st, s')) : Kept P D s s' := by
  have hundo : Kept P D s (undoLock s mutex) := by
    have hobj : Kept P D s (s.setObj mutex { s.objs mutex with
      ownerNested := ((s.objs mutex).ownerNested + (2 ^ 32 - 1)) % 2 ^ 32 }) :=
      kept_setObj fun _ => rfl
    exact hobj.trans (kept_of_tasks rfl fun _ _ => rfl)
  obtain rfl | ⟨-, htype, -, ⟨-, rfl⟩ | ⟨-, s₁, hrel, ⟨-, rfl⟩ |
    ⟨task, rest, s₂, hlist, hwake, rfl⟩⟩⟩ := krhinoMutexUnlock_cases hc
  · exact .refl _ _ _
  · exact hundo
  · exact (hundo.trans (mutexRelease_ok (undoLock_ok hk) hrel).2.kept).trans
      (kept_setObj fun _ => rfl)
  · obtain ⟨hk₁, hframe⟩ := mutexRelease_ok (undoLock_ok hk) hrel
    have hw : task ∈ (s₁.objs mutex).blkList := by
      rw [hlist]
      exact List.mem_cons_self
    exact ((hundo.trans hframe.kept).trans (wake_kept hk₁ (hP htype) hw hwake)).trans
      (mutexHandTo_kept.trans (kept_setObj fun _ => rfl))

/-- Deleting a mutex keeps the waits for other objects. -/
theorem mutexDel_kept {flag : AllocFlag} {st : KStat} (hk : KernOk s none)
    (hP : (s.objs mutex).objType = .mutex → ¬ P mutex)
    (hc : mutexDel fuel s mutex flag = some (st, s')) : Kept P D s s' := by
  obtain rfl | ⟨htype, s₁, hrel, hall⟩ := mutexDel_cases hc
  · exact .refl _ _ _
  · have hclear : Kept P D s (clearType s mutex) := by
      have hobj : Kept P D s (s.setObj mutex { s.objs mutex with objType := .none }) :=
        kept_setObj fun h => absurd h (hP htype)
      exact hobj.trans (kept_of_tasks rfl fun _ _ => rfl)
    have hreleased : Kept P D (clearType s mutex) s₁ := by
      obtain ⟨-, rfl⟩ | ⟨owner, -, hrel⟩ := hrel
      · exact .refl _ _ _
      · exact (mutexRelease_ok ((hk.beginDel mutex).record _) hrel).2.kept
    exact (hclear.trans hreleased).trans (pendTaskRmAll_kept hall)

/-- **every call** but those about the objects of `P`. The two that delete a task are left to
the caller of this lemma. -/
theorem kernCall_kept {c : KernCall} (hk : KernOk s none)
    (hP : ∀ obj, P obj → (s.objs obj).objType = .other ∧ ¬ UsesObj obj c)
    (hD : D s.active ∨ 0 < s.intrptLevel)
    (hdel : ∀ given, c = .taskDel given ∨ c = .taskDynDel given → Kept P D s s')
    (hc : kernCall fuel s c = some s') : Kept P D s s' := by
  have hmutex : ∀ m, (s.objs m).objType ≠ .other → ¬ P m := fun m hm hPm => hm (hP m hPm).1
  have hlock : ∀ m, (s.objs m).objType = .mutex → ¬ P m := fun m hm =>
    hmutex m (by rw [hm]; decide)
  cases c with
  | taskCreate task prio ticks autorun flag =>
    obtain ⟨st, hc⟩ := map_snd_eq hc
    obtain rfl | ⟨hfree, -, htasks, hobjs, -⟩ := taskCreate_cases hc
    · exact .refl _ _ _
    · refine kept_of_free task _ htasks (fun _ => by rw [hobjs]) ?_ fun _ =>
        waitKept_of_state (hfree.imp_right fun h => .inr (.inr h))
      cases autorun
      all_goals simp [Pending, newTask]
  | taskDel given => exact hdel given (.inl rfl)
  | taskDynDel given => exact hdel given (.inr rfl)
  | taskSleep ticks =>
    obtain ⟨st, hc⟩ := map_snd_eq hc
    exact krhinoTaskSleep_kept hD hc
  | taskYield =>
    obtain ⟨st, hc⟩ := map_snd_eq hc
    obtain ⟨rq, -, heq⟩ := Option.map_eq_some_iff.1 hc
    cases heq
    exact kept_of_tasks rfl fun _ _ => rfl
  | taskSuspend task =>
    obtain ⟨st, hc⟩ := map_snd_eq hc
    exact krhinoTaskSuspend_kept hk hc
  | taskResume task =>
    obtain ⟨st, hc⟩ := map_snd_eq hc
    exact krhinoTaskResume_kept hk hc
  | taskPriChange task pri =>
    obtain ⟨st, hc⟩ := map_snd_eq hc
    exact krhinoTaskPriChange_kept hk hc
  | taskWaitAbort task =>
    obtain ⟨st, hc⟩ := map_snd_eq hc
    exact krhinoTaskWaitAbort_kept hk hc
  | mutexCreate mutex flag =>
    obtain ⟨hfree, rfl⟩ := mutexCreate_cases hc
    exact kept_setObj fun h => absurd h (hmutex mutex (by rw [hfree]; decide))
  | mutexDel mutex =>
    obtain ⟨st, hc⟩ := map_snd_eq hc
    exact mutexDel_kept hk (hlock mutex) hc
  | mutexDynDel mutex =>
    obtain ⟨st, hc⟩ := map_snd_eq hc
    exact mutexDel_kept hk (hlock mutex) hc
  | mutexLock mutex ticks =>
    obtain ⟨st, hc⟩ := map_snd_eq hc
    exact krhinoMutexLock_kept hk (hlock mutex) hD hc
  | mutexUnlock mutex =>
    obtain ⟨st, hc⟩ := map_snd_eq hc
    exact krhinoMutexUnlock_kept hk (hlock mutex) hc
  | blkObjCreate o policy =>
    simp only [kernCall, blkObjCreate] at hc
    split_ifs at hc with hfree
    cases hc
    exact kept_setObj fun h => absurd h (hmutex o (by rw [not_not.1 hfree]; decide))
  | blkObjPend o ticks =>
    obtain ⟨st, hc⟩ := map_snd_eq hc
    unfold blkObjPend at hc
    split_ifs at hc with hintrpt htype hticks hlock
    · cases hc
      exact .refl _ _ _
    · cases hc
      exact .refl _ _ _
    · cases hc
      exact .refl _ _ _
    · cases hc
      exact .refl _ _ _
    · obtain ⟨s₁, hpend, heq⟩ := Option.map_eq_some_iff.1 hc
      cases heq
      exact pendToBlkObj_kept (fun h => (hP o h).2 rfl) (hD.resolve_right hintrpt)
        (Nat.pos_of_ne_zero hticks) hpend
  | blkObjWake o task =>
    obtain ⟨st, hc⟩ := map_snd_eq hc
    unfold blkObjWake at hc
    split_ifs at hc with htype hmem
    · cases hc
      exact .refl _ _ _
    · obtain ⟨s₁, hwake, heq⟩ := Option.map_eq_some_iff.1 hc
      cases heq
      exact wake_kept hk (fun h => (hP o h).2 rfl) hmem hwake
  | blkObjDel o =>
    obtain ⟨st, hc⟩ := map_snd_eq hc
    unfold blkObjDel at hc
    split_ifs at hc with hintrpt htype
    · cases hc
      exact .refl _ _ _
    · cases hc
      exact .refl _ _ _
    · obtain ⟨s₁, hall, heq⟩ := Option.map_eq_some_iff.1 hc
      cases heq
      have hclear : Kept P D s (s.setObj o { s.objs o with objType := .none }) :=
        kept_setObj fun h => absurd rfl (hP o h).2
      exact hclear.trans (pendTaskRmAll_kept hall)
  | schedDisable =>
    cases hc
    unfold krhinoSchedDisable
    split_ifs
    all_goals exact kept_of_tasks rfl fun _ _ => rfl
  | schedEnable =>
    cases hc
    unfold krhinoSchedEnable
    split_ifs
    all_goals exact kept_of_tasks rfl fun _ _ => rfl
  | tickListUpdate ticks =>
    have hk₁ : KernOk { s with tickCount := addTime s.tickCount ticks } none :=
      ⟨hk.rq, hk.tick, hk.blk, hk.tasks, hk.dead⟩
    have hcount : Kept P D s { s with tickCount := addTime s.tickCount ticks } :=
      kept_of_tasks rfl fun _ _ => rfl
    exact hcount.trans (tickListLoop_kept hk₁ hc)
  | timeSliceUpdate => exact timeSliceUpdate_kept hc

/-- A task is deleted; `P` holds none of its mutexes. -/
theorem Deletes.kept (hc : Deletes fuel s task s') (hk : KernOk s del) (ho : Owned s)
    (hP : ∀ m, (s.objs m).objType = .mutex → ¬ P m)
    (hfirst : (s.tasks task).taskState = .deleted → (s.tasks task).mutexList = none)
    (hD : ∀ t, (s'.tasks t).taskState = .deleted → D t) : Kept P D s s' := by
  obtain hlive | rfl := hc.cases ho hfirst
  · obtain ⟨s₁, hfree, hswitch⟩ := hc.switch ho hk hlive
    have hdead : (s'.tasks task).taskState = .deleted := by
      obtain ⟨s₂, rfl, ⟨t', hstate, htasks, -, -⟩ | ⟨hpend, hcancel⟩⟩ := taskDelSwitch_cases hswitch
      · show (s₂.tasks task).taskState = .deleted
        rw [htasks, Function.update_self]
        exact hstate
      · exact (pendCancel_tasks (P := P) (D := fun _ => True) (taskMutexFree_ok hk hfree) hpend
          (.inr (.inl rfl)) (fun h => absurd trivial h) hcancel).2
    exact (taskMutexFree_kept hk ho hlive hP hfree).trans
      (taskDelSwitch_kept (taskMutexFree_ok hk hfree) (hD task hdead) hswitch)
  · exact .refl _ _ _

/-- **Every step** of the kernel that is not about the objects of `P` lets the waits for them go on or
ends them without success, and what a task finds that has been woken stays. The active task, when it
makes the call, is not spoken of. -/
theorem kernStep_waitKept {a : KernAct} (hk : KernOk s none) (ho : Owned s)
    (hP : ∀ obj, P obj → (s.objs obj).objType = .other ∧ obj ≠ resSem ∧
      ∀ c, a = .call c → ¬ UsesObj obj c)
    (hfirst : FirstDeletion s a)
    (ht : (∃ c, a = .call c) → t ≠ s.active ∨ 0 < s.intrptLevel)
    (hc : kernStep fuel s a = some s') :
    WaitKept P (s.tasks t) (s'.tasks t) ∨ (s'.tasks t).taskState = .deleted := by
  obtain ⟨c, rfl, -, hcall⟩ | ⟨-, task, level, rfl⟩ := kernStep_cases hc
  · by_cases hdead : (s'.tasks t).taskState = .deleted
    · exact .inr hdead
    · left
      have hlock : ∀ m, (s.objs m).objType = .mutex → ¬ P m := by
        intro m hm hPm
        rw [(hP m hPm).1] at hm
        cases hm
      -- All that is said is said of `t`.
      have hother : ∀ u, (s'.tasks u).taskState = .deleted → u ≠ t := by
        rintro u hu rfl
        exact hdead hu
      have hactive : s.active ≠ t ∨ 0 < s.intrptLevel := (ht ⟨c, rfl⟩).imp_left Ne.symm
      refine (kernCall_kept (D := fun u => u ≠ t) hk (fun obj hobj => ?_) hactive ?_ hcall).waits t
        fun h => h rfl
      · exact ⟨(hP obj hobj).1, (hP obj hobj).2.2 c rfl⟩
      · rintro given (rfl | rfl)
        · obtain ⟨st, hcall⟩ := map_snd_eq hcall
          obtain rfl | ⟨hallowed, hdel⟩ := krhinoTaskDel_cases hcall
          · exact .refl _ _ _
          · exact hdel.kept hk ho hlock (hfirst hallowed) hother
        · obtain ⟨st, hcall⟩ := map_snd_eq hcall
          obtain rfl | ⟨-, hnot, s₀, hgive, hdel⟩ := krhinoTaskDynDel_cases hcall
          · exact .refl _ _ _
          · have hsame := resSemGive_sameOwn hk hgive
            have hkept : Kept P (fun u => u ≠ t) s s₀ := by
              obtain rfl | ⟨-, first, rest, hlist, hwake⟩ := resSemGive_cases hgive
              · exact .refl _ _ _
              · exact wake_kept hk (fun h => (hP _ h).2.1 rfl) (by rw [hlist]; exact List.mem_cons_self)
                  hwake
            exact hkept.trans (hdel.kept (resSemGive_ok hk hgive) (ho.same hsame)
              (fun m hm => hlock m ((hsame.type m).1 hm)) (dynDel_first hk hnot hgive) hother)
  · exact .inl (.refl _ _)

end Calls

end GenieSdk.Analysis.Rhino
